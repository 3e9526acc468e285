/-! # Double precision numbers

A number of the binary64 format is its 64 bits: a sign, 11 bits of exponent and 52 of fraction. A
finite number is `mantissa * 2 ^ exponent` with its sign.
-/

namespace InlineCache

/-- A binary64 number, NaN bits included. -/
structure Binary64 where
  bits : UInt64
deriving DecidableEq, Inhabited

namespace Binary64

def negative (x : Binary64) : Bool := x.bits >>> 63 == 1

/-- The eleven bits that hold the exponent. -/
def exponentField (x : Binary64) : Nat := ((x.bits >>> 52) &&& 0x7ff).toNat

/-- The 52 bits that hold the fraction. -/
def fractionField (x : Binary64) : Nat := (x.bits &&& 0xfffffffffffff).toNat

def isNaN (x : Binary64) : Bool := x.exponentField == 2047 && x.fractionField != 0

def isInfinite (x : Binary64) : Bool := x.exponentField == 2047 && x.fractionField == 0

def isZero (x : Binary64) : Bool := x.exponentField == 0 && x.fractionField == 0

/-- The whole factor of a finite number. -/
def mantissa (x : Binary64) : Nat :=
  if x.exponentField == 0 then x.fractionField else 0x10000000000000 + x.fractionField

/-- The power of two of a finite number. -/
def exponent (x : Binary64) : Int :=
  if x.exponentField == 0 then -1074 else (x.exponentField : Int) - 1075

/-- The next number toward zero is only half as far away as the next one outward. -/
def closeBelow (x : Binary64) : Bool := x.fractionField == 0 && 1 < x.exponentField

/-- Numeric equality: the zeros are equal, and NaN equals nothing. -/
def eqv (x y : Binary64) : Bool :=
  !x.isNaN && !y.isNaN && (x.bits == y.bits || (x.isZero && y.isZero))

end Binary64

end InlineCache
