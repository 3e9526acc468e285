import InlineCache.Heap.Basic

/-! # Changing a type

A change to the attributes of a type draws a new version for it and for every type below it, so
that a version names one state of one type. Types below are visited depth first, oldest first; one
that is reached along several paths draws a version on each.
-/

namespace InlineCache.Heap

/-- Draws a new version for one type. -/
def drawVersion (h : Heap) (t : TypeRef) : Heap :=
  { h.modifyType t fun r => { r with version := versionTag h.versions } with
    versions := h.versions + 1 }

/-- Draws versions for a type and the types below it, down to `depth` levels. -/
def refresh : (depth : Nat) → Heap → TypeRef → Heap
  | 0, h, _ => h
  | depth + 1, h, t => (h.typeAt t).subtypes.foldl (refresh depth) (h.drawVersion t)

/-- Draws versions for a type and all types below it. No path down is longer than there are
types. -/
def invalidate (h : Heap) (t : TypeRef) : Heap := h.refresh h.types.size t

def setAttr (h : Heap) (t : TypeRef) (name : String) (v : Value) : Heap :=
  (h.modifyType t fun r => { r with attrs := r.attrs.insert name v }).invalidate t

/-- Takes an attribute away from a type. Nothing happens when it has none of that name. -/
def deleteAttr (h : Heap) (t : TypeRef) (name : String) : Option Value × Heap :=
  match h.ownAttr t name with
  | none => (none, h)
  | some v =>
    (some v, (h.modifyType t fun r => { r with attrs := r.attrs.erase name }).invalidate t)

end InlineCache.Heap
