import InlineCache.Table
import InlineCache.Value

/-! # The registry of types

A registry hands out type numbers and remembers which type has which number. Numbers below
`firstAdded` belong to types that were there from the start.
-/

namespace InlineCache

/-- The number of a type. -/
structure TypeId where
  raw : UInt32
deriving DecidableEq, Inhabited

def TypeId.object : TypeId := ⟨0⟩

/-- Types by their numbers. -/
structure Registry where
  entries : Table TypeId TypeRef := ∅
  /-- How many numbers were handed out. -/
  drawn : Nat := 0
deriving Inhabited

namespace Registry

/-- The first number that is handed out. -/
def firstAdded : Nat := 256

/-- The number that is handed out next. Numbers are 32-bit words. -/
def nextId (r : Registry) : TypeId := ⟨UInt32.ofNat (firstAdded + r.drawn)⟩

def allocate (r : Registry) : TypeId × Registry := (r.nextId, { r with drawn := r.drawn + 1 })

/-- Gives a number to a type; an earlier holder loses it. -/
def register (r : Registry) (id : TypeId) (t : TypeRef) : Registry :=
  { r with entries := r.entries.insert id t }

def get? (r : Registry) (id : TypeId) : Option TypeRef := r.entries.get? id

def size (r : Registry) : Nat := r.entries.size

end Registry

end InlineCache
