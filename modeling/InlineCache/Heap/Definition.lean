import InlineCache.Error
import InlineCache.Heap.Basic
import InlineCache.Linearization

/-! # Defining a type

`define` works out the ancestors, the metaclass, the layout and the flags of a new type before it
touches the heap, so a definition that fails leaves the heap as it was.
-/

namespace InlineCache

/-- What the text of a class says. -/
structure ClassSpec where
  name : String
  /-- Without bases the class derives from `object`. -/
  bases : List TypeRef := []
  /-- Without a layout the class takes that of its first base. -/
  layout : Option LayoutRef := none
  system : Bool := false
  classic : Bool := false
  metaclass : Option TypeRef := none
  /-- A later entry wins over an earlier one of the same name. -/
  attrs : List (String × Value) := []
deriving Inhabited

namespace Heap

/-- The ancestors of a class with these bases. -/
def linearize (h : Heap) (bases : List TypeRef) : Except RuntimeError (List TypeRef) :=
  match Linearization.ofBases (fun b => (h.typeAt b).ancestors) bases with
  | .ok order => .ok order
  | .error (.duplicate b) => .error (.duplicateBase (h.typeAt b).name)
  | .error .inconsistent => .error (.inconsistentBases (bases.map fun b => (h.typeAt b).name))

/-- The one of two metaclasses that derives from the other. -/
def moreDerived (h : Heap) (current candidate : TypeRef) : Except RuntimeError TypeRef :=
  if h.isSubtype current candidate then .ok current
  else if h.isSubtype candidate current then .ok candidate
  else .error .metaclassConflict

/-- The metaclass of a class: the given one and those of the bases are compared in turn. -/
def resolveMetaclass (h : Heap) (given : Option TypeRef) (bases : List TypeRef) :
    Except RuntimeError (Option TypeRef) :=
  (bases.filterMap fun b => (h.typeAt b).metaclass).foldlM
    (fun winner candidate => match winner with
      | none => pure (some candidate)
      | some current => some <$> h.moreDerived current candidate)
    given

/-- Whether classic and modern types meet among a class and its ancestors, apart from what has the
number of `object`. -/
def mixes (h : Heap) (classic : Bool) (ancestors : List TypeRef) : Bool :=
  let kinds := classic ::
    (ancestors.filter fun t => (h.typeAt t).id ≠ .object).map fun t => (h.typeAt t).flags.classic
  kinds.contains true && kinds.contains false

/-- Adds a type that is worked out, links it below its bases and registers it. -/
def addType (h : Heap) (r : TypeRecord) : TypeRef × Heap :=
  let t : TypeRef := ⟨h.types.size⟩
  let linked := r.bases.foldl
    (fun h b => h.modifyType b fun p => { p with subtypes := p.subtypes ++ [t] })
    { h with types := h.types.push r }
  (t, { linked with registry := linked.registry.register r.id t })

def define (h : Heap) (c : ClassSpec) : Except RuntimeError (TypeRef × Heap) := do
  let bases := if c.bases.isEmpty then [TypeRef.object] else c.bases
  let ancestors ← h.linearize bases
  let metaclass ← h.resolveMetaclass c.metaclass bases
  let layout := c.layout.getD (h.typeAt (bases.headD .object)).layout
  let mixed := h.mixes c.classic ancestors
  let (id, registry) := h.registry.allocate
  return { h with registry, versions := h.versions + 1 }.addType
    { id, name := c.name, bases, ancestors, layout
      flags := { system := c.system, classic := c.classic, mixed }
      metaclass
      attrs := Table.ofList c.attrs
      version := versionTag h.versions
      subtypes := [] }

end Heap

end InlineCache
