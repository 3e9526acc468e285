import InlineCache.Binary64

/-! # Shortest decimal text

A finite number is written with the fewest digits that still read back as it, and of those the
nearest; a tie goes up. The digits are written out in full, without an exponent.
-/

namespace InlineCache.Decimal

/-- The numbers that round to one value. All three are numerators over `scale`. -/
structure Interval where
  low : Nat
  value : Nat
  high : Nat
  scale : Nat
  /-- Whether both ends round to the value too. -/
  closed : Bool

/-- What rounds to the finite number `x`, its sign aside. -/
def Interval.around (x : Binary64) : Interval :=
  let m := 4 * x.mantissa
  let e := x.exponent - 2
  let up := Nat.pow 2 e.toNat
  { low := (m - if x.closeBelow then 1 else 2) * up
    value := m * up
    high := (m + 2) * up
    scale := Nat.pow 2 (-e).toNat
    closed := x.mantissa % 2 == 0 }

/-- The multiple of `10 ^ g` nearest to the value, if one lies in the interval. -/
def Interval.multiple? (v : Interval) (g : Int) : Option Nat :=
  let ten := Nat.pow 10 (-g).toNat
  let unit := v.scale * Nat.pow 10 g.toNat
  let inside (d : Nat) : Bool :=
    if v.closed then v.low * ten ≤ d * unit && d * unit ≤ v.high * ten
    else v.low * ten < d * unit && d * unit < v.high * ten
  let value := v.value * ten
  let d := value / unit
  match inside d, inside (d + 1) with
  | true, true => some (if value - d * unit < (d + 1) * unit - value then d else d + 1)
  | true, false => some d
  | false, true => some (d + 1)
  | false, false => none

/-- The first hit on the grids `10 ^ g`, `10 ^ (g - 1)` and on, at most `n` of them. -/
def Interval.coarsest (v : Interval) : (n : Nat) → (g : Int) → Nat × Int
  | 0, g => (0, g)
  | n + 1, g =>
    match v.multiple? g with
    | some d => (d, g)
    | none => v.coarsest n (g - 1)

/-- The shortest decimal `d * 10 ^ g` that reads back as a finite number above zero. -/
def shortest (x : Binary64) : Nat × Int := (Interval.around x).coarsest 660 309

/-- A decimal without an exponent. -/
def positional (d : Nat) (g : Int) : List Char :=
  let digits := Nat.toDigits 10 d
  if 0 ≤ g then digits ++ List.replicate g.toNat '0'
  else
    let places := (-g).toNat
    if places < digits.length then
      digits.take (digits.length - places) ++ '.' :: digits.drop (digits.length - places)
    else '0' :: '.' :: List.replicate (places - digits.length) '0' ++ digits

def text (x : Binary64) : String :=
  if x.isNaN then "NaN"
  else
    let size := if x.isInfinite then "inf"
      else if x.isZero then "0"
      else String.ofList (positional (shortest x).1 (shortest x).2)
    if x.negative then "-" ++ size else size

end InlineCache.Decimal
