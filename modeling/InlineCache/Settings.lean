import InlineCache.Text.Blank
import InlineCache.Text.Quoted

/-! # Settings of a specializer

Whether construction is specialized at all, and for how many arguments at most. Both can be given
as text variables; `Settings.fromVariables` reads them.
-/

namespace InlineCache

/-- The most arguments a shortcut can take. -/
def arityLimit : Nat := 5

/-- How far a specializer goes. -/
structure Settings where
  /-- When false, every construction takes the general way. -/
  enabled : Bool := true
  /-- The most arguments a shortcut is built for. -/
  maxArity : Nat := arityLimit
deriving DecidableEq, Inhabited

/-- What can be wrong with settings. -/
inductive SettingsFault where
  | notBoolean (key text : String)
  | notNumber (key text : String)
  | capTooLarge (cap : Nat)
deriving DecidableEq

def SettingsFault.message : SettingsFault → String
  | .notBoolean key text => s!"{key}={Text.quote text} is not a boolean"
  | .notNumber key text => s!"{key}={Text.quote text} is not a number"
  | .capTooLarge cap =>
    s!"max_specialized_arity {cap} exceeds the supported maximum {arityLimit}"

namespace Settings

/-- Settings that shortcuts can follow. -/
def Valid (s : Settings) : Prop := s.maxArity ≤ arityLimit

instance (s : Settings) : Decidable s.Valid := inferInstanceAs (Decidable (_ ≤ _))

/-- Lets only valid settings through. -/
def validate (s : Settings) : Except SettingsFault Settings :=
  if s.Valid then .ok s else .error (.capTooLarge s.maxArity)

/-- The variable that switches specialization on and off. -/
def enabledVariable : String := "EMBER_FASTBIND"

/-- The variable that lowers the number of arguments. -/
def maxArityVariable : String := "EMBER_FASTBIND_MAX_ARITY"

/-- The letters A to Z in small. -/
def lower (cs : List Char) : List Char :=
  cs.map fun c => if 'A' ≤ c && c ≤ 'Z' then Char.ofNat (c.toNat + 32) else c

/-- Reads a switch; blanks around it and the case of its letters do not matter. -/
def readSwitch (text : String) : Option Bool :=
  let word := String.ofList (lower (Text.trim text.toList))
  if word ∈ ["", "1", "on", "true", "yes"] then some true
  else if word ∈ ["0", "off", "false", "no"] then some false
  else none

def isDigit (c : Char) : Bool := '0' ≤ c && c ≤ '9'

/-- The number that digits denote. -/
def denoted (digits : List Char) : Nat := digits.foldl (fun n c => 10 * n + (c.toNat - 48)) 0

/-- Reads a count: digits, with an optional plus in front, that denote a 64-bit word. -/
def readCount (text : String) : Option Nat :=
  let digits := match Text.trim text.toList with
    | '+' :: rest => rest
    | cs => cs
  if digits ≠ [] ∧ digits.all isDigit ∧ denoted digits < UInt64.size then some (denoted digits)
  else none

/-- Settings read from variables; one that is not set keeps its default. -/
def fromVariables (lookup : String → Option String) : Except SettingsFault Settings := do
  let enabled ← match lookup enabledVariable with
    | none => pure true
    | some text => match readSwitch text with
      | some b => pure b
      | none => throw (.notBoolean enabledVariable text)
  let maxArity ← match lookup maxArityVariable with
    | none => pure arityLimit
    | some text => match readCount text with
      | some n => pure n
      | none => throw (.notNumber maxArityVariable text)
  validate { enabled, maxArity }

end Settings

end InlineCache
