import InlineCache.Text.Shown
import InlineCache.Text.Joining

/-! # Quoted text

A text between double quotes, with everything escaped that would not show.
-/

namespace InlineCache.Text

/-- A code point in braces, in lower hexadecimal without leading zeros. -/
def escapeCode (c : Char) : List Char :=
  ['\\', 'u', '\x7b'] ++ Nat.toDigits 16 c.toNat ++ ['\x7d']

/-- How one character is written between double quotes. -/
def escape (c : Char) : List Char :=
  if c == '\x00' then ['\\', '0']
  else if c == '\t' then ['\\', 't']
  else if c == '\n' then ['\\', 'n']
  else if c == '\r' then ['\\', 'r']
  else if c == '\\' || c == '\x22' then ['\\', c]
  else if isJoining c || !isShown c then escapeCode c
  else [c]

/-- The text between double quotes. -/
def quote (s : String) : String :=
  String.ofList ('\x22' :: s.toList.flatMap escape ++ ['\x22'])

end InlineCache.Text
