import InlineCache.Binary64

/-! # Values

A value is plain data or names an object. Tuples and method wrappers never change, so a value holds
their contents and `box` tells which object it is. All else that can change is reached through a
reference into the heap.
-/

namespace InlineCache

structure TypeRef where
  index : Nat
deriving DecidableEq, Inhabited

structure FunctionRef where
  index : Nat
deriving DecidableEq, Inhabited

structure LayoutRef where
  index : Nat
deriving DecidableEq, Inhabited

structure InstanceRef where
  index : Nat
deriving DecidableEq, Inhabited

/-- Which built-in function: one of the two that `object` defines, or one that was added. -/
inductive BuiltinRef where
  | objectNew
  | objectInit
  | added (index : Nat)
deriving DecidableEq

/-- A dynamic value. -/
inductive Value where
  | none
  | bool (b : Bool)
  | int (i : Int64)
  | float (x : Binary64)
  | str (s : String)
  | tuple (box : Nat) (items : List Value)
  | type (t : TypeRef)
  | function (f : FunctionRef)
  | staticMethod (box : Nat) (inner : Value)
  | classMethod (box : Nat) (inner : Value)
  | builtin (b : BuiltinRef)
  | object (i : InstanceRef)
deriving Inhabited

namespace Value

/-! ## Deciding whether two values are the same -/

mutual

/-- Whether two values are the same in every part. -/
def same : Value → Value → Bool
  | .none, .none => true
  | .bool a, .bool b => a == b
  | .int a, .int b => a == b
  | .float a, .float b => a == b
  | .str a, .str b => a == b
  | .tuple a xs, .tuple b ys => a == b && sameAll xs ys
  | .type a, .type b => a == b
  | .function a, .function b => a == b
  | .staticMethod a x, .staticMethod b y => a == b && same x y
  | .classMethod a x, .classMethod b y => a == b && same x y
  | .builtin a, .builtin b => a == b
  | .object a, .object b => a == b
  | _, _ => false

/-- Whether two lists hold the same values in the same places. -/
def sameAll : List Value → List Value → Bool
  | [], [] => true
  | x :: xs, y :: ys => same x y && sameAll xs ys
  | _, _ => false

end

mutual

theorem same_self (v : Value) : same v v = true := by
  cases v <;> simp [same, sameAll_self, same_self]

theorem sameAll_self (l : List Value) : sameAll l l = true := by
  cases l <;> simp [sameAll, sameAll_self, same_self]

end

mutual

theorem eq_of_same (v w : Value) (h : same v w = true) : v = w := by
  cases v <;> cases w <;> simp_all [same]
  case tuple.tuple => exact eq_of_sameAll _ _ h.2
  case staticMethod.staticMethod => exact eq_of_same _ _ h.2
  case classMethod.classMethod => exact eq_of_same _ _ h.2

theorem eq_of_sameAll (l m : List Value) (h : sameAll l m = true) : l = m := by
  cases l <;> cases m <;> simp_all [sameAll]
  exact ⟨eq_of_same _ _ h.1, eq_of_sameAll _ _ h.2⟩

end

instance : DecidableEq Value := fun v w =>
  decidable_of_iff (same v w = true) ⟨eq_of_same v w, fun h => h ▸ same_self v⟩

/-! ## Equality and identity in programs -/

mutual

/-- What a program sees as equal: numbers by value, tuples item by item, objects by identity. -/
def eqv : Value → Value → Bool
  | .none, .none => true
  | .bool a, .bool b => a == b
  | .int a, .int b => a == b
  | .float a, .float b => a.eqv b
  | .str a, .str b => a == b
  | .tuple _ xs, .tuple _ ys => eqvAll xs ys
  | .type a, .type b => a == b
  | .function a, .function b => a == b
  | .staticMethod a _, .staticMethod b _ => a == b
  | .classMethod a _, .classMethod b _ => a == b
  | .builtin a, .builtin b => a == b
  | .object a, .object b => a == b
  | _, _ => false

/-- Item by item, and of one length. -/
def eqvAll : List Value → List Value → Bool
  | [], [] => true
  | x :: xs, y :: ys => eqv x y && eqvAll xs ys
  | _, _ => false

end

/-- Whether two values are one object; plain data has no identity beyond equality. -/
def isSame : Value → Value → Bool
  | .tuple a _, .tuple b _ => a == b
  | v, w => v.eqv w

/-- What a call of a value reaches: a static method passes the call on to what it wraps. -/
def callee : Value → Value
  | .staticMethod _ inner => inner.callee
  | v => v

def asInt? : Value → Option Int64
  | .int i => some i
  | _ => Option.none

def isType : Value → Bool
  | .type _ => true
  | _ => false

def isObject : Value → Bool
  | .object _ => true
  | _ => false

end Value

end InlineCache
