import InlineCache.Heap.Mutation
import InlineCache.Proofs.Linearization
import InlineCache.Proofs.Reading
import Mathlib.Algebra.Group.Nat.Defs
import Mathlib.Logic.Relation
import Mathlib.Order.Nat

/-! # How types hang together

A type comes after its bases, so that every path down from a type to one below it is shorter than
there are types. `refresh` follows all those paths. -/

namespace InlineCache.Heap

def Has (h : Heap) (t : TypeRef) : Prop := t.index < h.types.size

instance (h : Heap) (t : TypeRef) : Decidable (h.Has t) := inferInstanceAs (Decidable (_ < _))

/-! ## Reading after a change -/

theorem typeAt_of_not_has {h : Heap} {t : TypeRef} (ht : ¬ h.Has t) : h.typeAt t = default := by
  simp [typeAt, Array.getD_eq_getD_getElem?, Array.getElem?_eq_none (Nat.not_lt.mp ht)]

@[simp] theorem size_modifyType (h : Heap) (t : TypeRef) (f : TypeRecord → TypeRecord) :
    (h.modifyType t f).types.size = h.types.size := by
  simp [modifyType]

theorem typeAt_modifyType (h : Heap) (t u : TypeRef) (f : TypeRecord → TypeRecord) :
    (h.modifyType t f).typeAt u = if t = u ∧ h.Has u then f (h.typeAt u) else h.typeAt u := by
  cases t
  cases u
  simp only [typeAt, modifyType, getD_modify, Has, TypeRef.mk.injEq]

@[simp] theorem size_drawVersion (h : Heap) (t : TypeRef) :
    (h.drawVersion t).types.size = h.types.size :=
  size_modifyType h t _

@[simp] theorem versions_drawVersion (h : Heap) (t : TypeRef) :
    (h.drawVersion t).versions = h.versions + 1 := rfl

theorem typeAt_drawVersion (h : Heap) (t u : TypeRef) :
    (h.drawVersion t).typeAt u =
      if t = u ∧ h.Has u then { h.typeAt u with version := versionTag h.versions }
      else h.typeAt u :=
  typeAt_modifyType h t u fun r => { r with version := versionTag h.versions }

/-! ## The hierarchy -/

def layoutNumber : Nat → LayoutId
  | 0 => .object
  | n + 1 => ⟨LayoutId.firstAdded + UInt32.ofNat n⟩

/-- Every type comes after its bases, which know it, and derives from what they derive from. -/
structure Hierarchy (h : Heap) : Prop where
  root : h.Has .object
  system : (h.typeAt .object).flags.system = true
  bases : ∀ t, h.Has t → ∀ b ∈ (h.typeAt t).bases, b.index < t.index
  ancestors : ∀ t, h.Has t → ∀ x ∈ (h.typeAt t).ancestors, ∃ b ∈ (h.typeAt t).bases, x ∈ h.line b
  subtypes : ∀ t, h.Has t → ∀ b ∈ (h.typeAt t).bases, t ∈ (h.typeAt b).subtypes
  layout : ∀ t, h.Has t → (h.typeAt t).layout.index < h.layouts.size
  number : ∀ l : LayoutRef, l.index < h.layouts.size → (h.layoutAt l).id = layoutNumber l.index

theorem eq_object_of_has_initial (functions : Array FunctionRecord) (t : TypeRef)
    (ht : Has { initial with functions } t) : t = .object := by
  obtain ⟨i⟩ := t
  have : i < 1 := ht
  rw [TypeRef.object, TypeRef.mk.injEq]
  omega

theorem hierarchy_initial (functions : Array FunctionRecord) :
    Hierarchy { initial with functions } := by
  have hroot := eq_object_of_has_initial functions
  refine ⟨Nat.zero_lt_one, rfl, ?_, ?_, ?_, ?_, ?_⟩
  · intro t ht b hb
    rw [hroot t ht] at hb
    exact absurd hb List.not_mem_nil
  · intro t ht x hx
    rw [hroot t ht] at hx
    exact absurd hx List.not_mem_nil
  · intro t ht b hb
    rw [hroot t ht] at hb
    exact absurd hb List.not_mem_nil
  · intro t ht
    rw [hroot t ht]
    exact Nat.zero_lt_one
  · rintro ⟨i⟩ hi
    have hi : i < 1 := hi
    obtain rfl : i = 0 := by omega
    rfl

theorem mem_line {h : Heap} {t x : TypeRef} : x ∈ h.line t ↔ x = t ∨ x ∈ (h.typeAt t).ancestors :=
  List.mem_cons

theorem Hierarchy.line_le {h : Heap} (hh : h.Hierarchy) (u x : TypeRef) (hu : h.Has u)
    (hx : x ∈ h.line u) : x.index ≤ u.index := by
  -- By induction on the place of `u`, which is behind that of each of its bases.
  induction hn : u.index using Nat.strongRecOn generalizing u with
  | _ n ih =>
    rcases mem_line.mp hx with rfl | hx
    · omega
    · obtain ⟨b, hb, hxb⟩ := hh.ancestors u hu x hx
      have hlt : b.index < u.index := hh.bases u hu b hb
      have := ih b.index (by omega) b (Nat.lt_trans hlt hu) hxb rfl
      omega

theorem Hierarchy.has_of_mem_line {h : Heap} (hh : h.Hierarchy) {u x : TypeRef} (hu : h.Has u)
    (hx : x ∈ h.line u) : h.Has x :=
  Nat.lt_of_le_of_lt (hh.line_le u x hu hx) hu

/-! ## Paths down -/

/-- `u` is reached from `t` in so many steps from a type to one that names it as a base. -/
inductive Below (h : Heap) : Nat → TypeRef → TypeRef → Prop
  | here (t : TypeRef) : Below h 0 t t
  | down {n : Nat} {t u v : TypeRef} (sub : u ∈ (h.typeAt t).subtypes) (rest : Below h n u v) :
      Below h (n + 1) t v

theorem Below.snoc {h : Heap} {n : Nat} {t u v : TypeRef} (p : Below h n t u)
    (sub : v ∈ (h.typeAt u).subtypes) : Below h (n + 1) t v := by
  induction p with
  | here t => exact .down sub (.here v)
  | down first _ ih => exact .down first (ih sub)

theorem Below.mono {h h' : Heap} {n : Nat} {t u : TypeRef} (p : Below h n t u)
    (hsub : ∀ t, (h'.typeAt t).subtypes = (h.typeAt t).subtypes) : Below h' n t u := by
  induction p with
  | here t => exact .here t
  | down sub _ ih => exact .down (by rwa [hsub]) ih

theorem Hierarchy.below {h : Heap} (hh : h.Hierarchy) (u x : TypeRef) (hu : h.Has u)
    (hx : x ∈ h.line u) : ∃ n, Below h n x u ∧ n + x.index ≤ u.index := by
  induction hn : u.index using Nat.strongRecOn generalizing u with
  | _ n ih =>
    rcases mem_line.mp hx with rfl | hx
    · exact ⟨0, .here x, by omega⟩
    · obtain ⟨b, hb, hxb⟩ := hh.ancestors u hu x hx
      have hlt : b.index < u.index := hh.bases u hu b hb
      obtain ⟨m, hm, hle⟩ := ih b.index (by omega) b (Nat.lt_trans hlt hu) hxb rfl
      exact ⟨m + 1, hm.snoc (hh.subtypes u hu b hb), by omega⟩

/-! ## Drawing versions -/

/-- Some types draw new versions, one after the other. -/
def Draws : Heap → Heap → Prop := Relation.ReflTransGen fun h h' => ∃ t, h' = h.drawVersion t

theorem draws_foldl {α : Type} {f : Heap → α → Heap} (hf : ∀ h a, Draws h (f h a)) (l : List α)
    (h : Heap) : Draws h (l.foldl f h) := by
  induction l generalizing h with
  | nil => exact .refl
  | cons a rest ih => exact (hf h a).trans (ih (f h a))

theorem draws_refresh (n : Nat) (h : Heap) (t : TypeRef) : Draws h (h.refresh n t) := by
  induction n generalizing h t with
  | zero => exact .refl
  | succ n ih =>
    unfold refresh
    exact .head ⟨t, rfl⟩ (draws_foldl ih _ _)

/-- Drawing versions leaves all else as it is. -/
structure SameButVersions (h h' : Heap) : Prop where
  size : h'.types.size = h.types.size
  type : ∀ t, h'.typeAt t = { h.typeAt t with version := (h'.typeAt t).version }
  rest : h' = { h with types := h'.types, versions := h'.versions }
  versions : h.versions ≤ h'.versions

theorem Draws.same {h h' : Heap} (d : Draws h h') : SameButVersions h h' := by
  induction d with
  | refl => exact ⟨rfl, fun _ => rfl, rfl, Nat.le_refl _⟩
  | tail _ step ih =>
    obtain ⟨t, rfl⟩ := step
    refine ⟨by rw [size_drawVersion, ih.size], ?_, ?_, ?_⟩
    · intro u
      rw [typeAt_drawVersion]
      split
      · rw [ih.type u]
      · exact ih.type u
    · unfold drawVersion modifyType
      rw [ih.rest]
    · rw [versions_drawVersion]
      exact Nat.le_succ_of_le ih.versions

/-! ## Fresh versions -/

theorem toNat_versionTag {n : Nat} (h : n + 1 < 2 ^ 64) : (versionTag n).toNat = n + 1 := by
  unfold versionTag
  rw [UInt64.toNat_ofNat']
  exact Nat.mod_eq_of_lt h

theorem Draws.version {h h' : Heap} (d : Draws h h') (fits : h'.versions < 2 ^ 64) (u : TypeRef) :
    (h'.typeAt u).version = (h.typeAt u).version ∨
      h.versions < (h'.typeAt u).version.toNat := by
  induction d with
  | refl => exact Or.inl rfl
  | tail before step ih =>
    obtain ⟨t, rfl⟩ := step
    rw [versions_drawVersion] at fits
    rw [typeAt_drawVersion]
    split
    · have hle := (Draws.same before).versions
      exact Or.inr (by rw [toNat_versionTag fits]; omega)
    · exact ih (by omega)

theorem Draws.stays_fresh {h h' : Heap} (d : Draws h h') (fits : h'.versions < 2 ^ 64)
    {n : Nat} (hn : n ≤ h.versions) {u : TypeRef} (hu : n < (h.typeAt u).version.toNat) :
    n < (h'.typeAt u).version.toNat := by
  rcases d.version fits u with heq | hlt
  · rwa [heq]
  · omega

/-- `refresh` draws a version for every type at the end of a path shorter than its depth. -/
theorem refresh_fresh (n : Nat) (h : Heap) (t : TypeRef) {k : Nat} {u : TypeRef}
    (p : Below h k t u) (hk : k < n) (hu : h.Has u) (fits : (h.refresh n t).versions < 2 ^ 64) :
    h.versions < ((h.refresh n t).typeAt u).version.toNat := by
  induction n generalizing h t k with
  | zero => omega
  | succ n ih =>
    have hfold : ∀ (l : List TypeRef) (h : Heap), Draws h (l.foldl (refresh n) h) :=
      fun l h => draws_foldl (draws_refresh n) l h
    unfold refresh at fits ⊢
    cases p with
    | here =>
      have d := hfold (h.typeAt u).subtypes (h.drawVersion u)
      have hle := d.same.versions
      rw [versions_drawVersion] at hle
      apply d.stays_fresh fits (Nat.le_succ _)
      rw [typeAt_drawVersion, if_pos ⟨rfl, hu⟩]
      change h.versions < (versionTag h.versions).toNat
      rw [toNat_versionTag (by omega)]
      exact Nat.lt_succ_self _
    | @down k _ s _ sub rest =>
      obtain ⟨pre, post, hsplit⟩ := List.append_of_mem sub
      rw [hsplit, List.foldl_append, List.foldl_cons] at fits ⊢
      -- What is drawn before `s` leaves the path from `s` down as it is.
      have before : Draws h (pre.foldl (refresh n) (h.drawVersion t)) := .head ⟨t, rfl⟩ (hfold _ _)
      generalize pre.foldl (refresh n) (h.drawVersion t) = h₁ at before fits ⊢
      have after := hfold post (h₁.refresh n s)
      have hat := (draws_refresh n h₁ s).same.versions
      have hrest : Below h₁ k s u := rest.mono fun t => by rw [before.same.type t]
      have hu₁ : h₁.Has u := by rwa [Has, before.same.size]
      have hlt := ih h₁ s hrest (by omega) hu₁ (Nat.lt_of_le_of_lt after.same.versions fits)
      have hle := before.same.versions
      exact after.stays_fresh fits (by omega) (by omega)

end InlineCache.Heap
