import InlineCache.Heap.Basic

/-! # Slots of the construction protocol

A slot is an attribute with a fixed name that construction looks up on a type. `classify` says what
kind of thing was found, so that nobody else needs the rules.
-/

namespace InlineCache

/-- The slots that construction looks at. -/
inductive Slot where
  | new
  | init
  | del
  /-- Looked up on the metaclass when a class is called. -/
  | call
deriving DecidableEq

/-- The attribute that holds a slot. -/
def Slot.attr : Slot → String
  | .new => "__new__"
  | .init => "__init__"
  | .del => "__del__"
  | .call => "__call__"

/-- What was found in a slot. -/
inductive SlotBinding where
  | notFound
  /-- The one that `object` defines. -/
  | standard
  /-- A function of the user: plain, or in a static method for `__new__`. -/
  | user (value : Value)
  | unsupported (value : Value)
deriving DecidableEq

namespace SlotBinding

def isFound : SlotBinding → Bool
  | .notFound => false
  | _ => true

/-- The value found, unless it is the one that `object` defines. -/
def value? : SlotBinding → Option Value
  | .user v | .unsupported v => some v
  | _ => none

/-- Sorts a value found in a slot. -/
def classify : Slot → Value → SlotBinding
  | .new, .builtin .objectNew => .standard
  | .init, .builtin .objectInit => .standard
  | .new, .staticMethod box (.function f) => .user (.staticMethod box (.function f))
  | .init, .function f => .user (.function f)
  | .del, .function f => .user (.function f)
  | .call, .function f => .user (.function f)
  | _, v => .unsupported v

end SlotBinding

/-- What a slot of a type resolves to. -/
def Heap.slot (h : Heap) (t : TypeRef) (s : Slot) : SlotBinding :=
  match h.lookup t s.attr with
  | none => .notFound
  | some v => .classify s v

/-- Whether a type puts something else in the place of what `object` defines. -/
def Heap.overrides (h : Heap) (t : TypeRef) (s : Slot) : Bool := h.slot t s ≠ .standard

end InlineCache
