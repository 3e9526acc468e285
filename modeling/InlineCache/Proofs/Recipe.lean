import InlineCache.Caches.Request
import InlineCache.Proofs.Change

/-! # What a shortcut has to do

`recipe` says from the heap alone whether construction can be cut short, and how. A version stands
for it: as long as a type is kept, its recipes are. -/

namespace InlineCache

/-- How a new object is made: by the one constructor of a layout, or by the user's `__new__`. -/
inductive Maker where
  | native (layout : LayoutRef)
  | user (f : FunctionRef)
deriving DecidableEq

/-- What a construction runs: something that makes the object, and perhaps the user's
`__init__`. -/
structure Recipe where
  maker : Maker
  initializer : Option FunctionRef
deriving DecidableEq

namespace Heap

def initializer? (h : Heap) (s : Signature) (t : TypeRef) : Except Refusal (Option FunctionRef) :=
  match h.slot t .init with
  | .standard =>
    if s.arity ≠ 0 ∧ h.slot t .new = .standard then .error .argumentsWithoutSlots else .ok none
  | .user (.function f) => .ok (some f)
  | _ => .error .unsupportedInit

/-- What makes an object of a type. -/
def maker? (h : Heap) (t : TypeRef) : Except Refusal Maker :=
  match h.slot t .new with
  | .standard =>
    match Specializer.directAllocator h (h.typeAt t).layout with
    | some l => .ok (.native l)
    | none => .error .noNativeAllocator
  | .user (.staticMethod _ (.function f)) => .ok (.user f)
  | _ => .error .unsupportedNew

/-- The construction of a type that is let through the gate, or what is in the way. -/
def construction? (h : Heap) (s : Signature) (t : TypeRef) : Except Obstacle Recipe :=
  match Arity.ofNat s.arity with
  | .error e => .error (.error e)
  | .ok _ =>
    match h.initializer? s t with
    | .error reason => .error (.refusal reason)
    | .ok initializer =>
      match h.maker? t with
      | .error reason => .error (.refusal reason)
      | .ok maker => .ok ⟨maker, initializer⟩

def recipe (settings : Settings) (h : Heap) (shape : SiteShape) (t : TypeRef) :
    Except Obstacle Recipe :=
  match gate settings h shape t with
  | some reason => .error (.refusal reason)
  | none => h.construction? shape.signature t

/-! ## What a recipe says -/

section

variable {settings : Settings} {h : Heap} {shape : SiteShape} {t : TypeRef} {r : Recipe}

theorem recipe_eq_ok_iff : h.recipe settings shape t = .ok r ↔
    gate settings h shape t = none ∧ shape.signature.arity ≤ arityLimit ∧
      h.initializer? shape.signature t = .ok r.initializer ∧ h.maker? t = .ok r.maker := by
  unfold recipe construction? Arity.ofNat
  cases gate settings h shape t with
  | some reason => simp
  | none =>
    by_cases ha : shape.signature.arity ≤ arityLimit
    · cases hi : h.initializer? shape.signature t with
      | error reason => simp [ha]
      | ok initializer =>
        cases hm : h.maker? t with
        | error reason => simp [ha]
        | ok maker => cases r; simp [ha, and_comm]
    · simp [ha]

theorem gate_eq_none_iff : gate settings h shape t = none ↔
    settings.enabled = true ∧ (h.typeAt t).flags.system = false ∧
      (h.typeAt t).flags.mixed = false ∧ (h.slot t .del).isFound = false ∧
      shape.signature.arity ≤ settings.maxArity ∧ shape.typed = false ∧
      (h.typeAt t).metaclass = none := by
  unfold gate
  grind [Option.isSome_iff_ne_none]

theorem initializer?_eq_none_iff {s : Signature} : h.initializer? s t = .ok none ↔
    h.slot t .init = .standard ∧ (s.arity = 0 ∨ h.slot t .new ≠ .standard) := by
  unfold initializer?
  split
  · grind
  · grind
  · grind

theorem initializer?_eq_some_iff {s : Signature} {f : FunctionRef} :
    h.initializer? s t = .ok (some f) ↔ h.slot t .init = .user (.function f) := by
  unfold initializer?
  split
  · grind
  · grind
  · grind

theorem maker?_eq_native_iff {l : LayoutRef} : h.maker? t = .ok (.native l) ↔
    h.slot t .new = .standard ∧ l = (h.typeAt t).layout ∧
      (h.layoutOf t).hasSoleAllocator = true := by
  unfold maker? Specializer.directAllocator layoutOf
  split
  · grind
  · grind
  · grind

theorem maker?_eq_user_iff {f : FunctionRef} : h.maker? t = .ok (.user f) ↔
    ∃ box, h.slot t .new = .user (.staticMethod box (.function f)) := by
  unfold maker? Specializer.directAllocator
  split
  · grind
  · grind
  · grind

theorem has_of_slot {s : Slot} (hslot : h.slot t s ≠ .notFound) : h.Has t := by
  by_contra hnot
  refine hslot ?_
  unfold slot lookup line ownAttr
  simp only [List.findSome?_cons, typeAt_of_not_has hnot]
  rfl

theorem has_of_recipe (hr : h.recipe settings shape t = .ok r) : h.Has t := by
  obtain ⟨-, -, hinit, -⟩ := recipe_eq_ok_iff.mp hr
  refine has_of_slot (s := .init) fun hslot => ?_
  simp [initializer?, hslot] at hinit

end

/-! ## What a recipe depends on -/

/-- A type on which look-ups find what they found has the recipes that it had. -/
theorem recipe_of_lookup {h h' : Heap} (g : Grows h h') (hh : h.Hierarchy) {t : TypeRef}
    (ht : h.Has t) (lookup : ∀ name, h'.lookup t name = h.lookup t name) (settings : Settings)
    (shape : SiteShape) : h'.recipe settings shape t = h.recipe settings shape t := by
  obtain ⟨_, _, _, htype⟩ := g.type t ht
  have hslot : ∀ s, h'.slot t s = h.slot t s := by
    intro s
    rw [slot, slot, lookup]
  have hlayout : h'.layoutAt (h.typeAt t).layout = h.layoutAt (h.typeAt t).layout :=
    g.layoutAt _ (hh.layout t ht)
  have hgate : gate settings h' shape t = gate settings h shape t := by
    simp only [gate, htype, hslot]
  have hinit : h'.initializer? shape.signature t = h.initializer? shape.signature t := by
    simp only [initializer?, hslot]
  have hmaker : h'.maker? t = h.maker? t := by
    simp only [maker?, Specializer.directAllocator, htype, hslot, hlayout]
  rw [recipe, recipe, hgate, construction?, construction?, hinit, hmaker]

end Heap

end InlineCache
