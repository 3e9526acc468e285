import InlineCache.Proofs.Ancestry
import Mathlib.Data.List.Induction
import Mathlib.Data.List.Infix

/-! # Metaclasses

The metaclass of a class is found by comparing its candidates in turn. The comparison keeps one
winner, so it goes through exactly when the candidates up to each place have one that derives from
all of them. A candidate further back that derives from two unrelated ones comes too late.
-/

namespace InlineCache.Heap

/-- The metaclasses that a definition compares, in this order. -/
def candidates (h : Heap) (given : Option TypeRef) (bases : List TypeRef) : List TypeRef :=
  given.toList ++ bases.filterMap fun b => (h.typeAt b).metaclass

/-- `m` is one of the types and derives from all of them. -/
def Least (h : Heap) (types : List TypeRef) (m : TypeRef) : Prop :=
  m ∈ types ∧ ∀ u ∈ types, h.isSubtype m u = true

instance (h : Heap) (types : List TypeRef) (m : TypeRef) : Decidable (h.Least types m) :=
  inferInstanceAs (Decidable (_ ∧ _))

/-- However many of the types are taken from the front, one of them is least. -/
def Nested (h : Heap) (types : List TypeRef) : Prop :=
  ∀ front, front <+: types → front ≠ [] → ∃ m, h.Least front m

theorem exists_mem_least_iff {h : Heap} {types : List TypeRef} :
    (∃ m ∈ types, h.Least types m) ↔ ∃ m, h.Least types m :=
  exists_congr fun _ => and_iff_right_of_imp And.left

instance (h : Heap) (types : List TypeRef) : Decidable (h.Nested types) :=
  decidable_of_iff (∀ front ∈ types.inits, front ≠ [] → ∃ m ∈ front, h.Least front m) <| by
    simp only [List.mem_inits, Nested, exists_mem_least_iff]

def compete (h : Heap) (winner : Option TypeRef) (candidate : TypeRef) :
    Except RuntimeError (Option TypeRef) :=
  match winner with
  | none => .ok (some candidate)
  | some current => some <$> h.moreDerived current candidate

theorem resolveMetaclass_eq (h : Heap) (given : Option TypeRef) (bases : List TypeRef) :
    h.resolveMetaclass given bases = (h.candidates given bases).foldlM h.compete none := by
  cases given <;> rfl

/-! ## Least candidates -/

theorem nested_nil (h : Heap) : h.Nested [] :=
  fun _ hpre hne => absurd (List.prefix_nil.mp hpre) hne

theorem nested_concat_iff {h : Heap} {types : List TypeRef} {c : TypeRef} :
    h.Nested (types ++ [c]) ↔ h.Nested types ∧ ∃ m, h.Least (types ++ [c]) m := by
  constructor
  · intro nested
    refine ⟨fun front hpre => nested front (hpre.trans (List.prefix_append _ _)), ?_⟩
    exact nested _ (List.prefix_refl _) (by simp)
  · rintro ⟨nested, least⟩ front hpre hne
    rcases List.prefix_concat_iff.mp hpre with rfl | hpre
    · exact least
    · exact nested front hpre hne

section

variable {h : Heap} (hl : h.Linearized)

include hl

theorem Linearized.least_unique {types : List TypeRef} {m m' : TypeRef} (hm : h.Least types m)
    (hm' : h.Least types m') : m = m' :=
  hl.isPartialOrder.antisymm _ _ (hm.2 m' hm'.1) (hm'.2 m hm.1)

theorem Linearized.least_concat_iff {types : List TypeRef} {m c x : TypeRef}
    (hm : h.Least types m) :
    h.Least (types ++ [c]) x ↔
      (x = m ∧ h.isSubtype m c = true) ∨ (x = c ∧ h.isSubtype c m = true) := by
  have order := hl.isPartialOrder
  constructor
  · rintro ⟨hin, hall⟩
    have hc : h.isSubtype x c = true := hall c (by simp)
    rcases List.mem_append.mp hin with hin | hin
    · have hx : h.Least types x := ⟨hin, fun u hu => hall u (List.mem_append_left _ hu)⟩
      obtain rfl := hl.least_unique hx hm
      exact Or.inl ⟨rfl, hc⟩
    · obtain rfl := List.mem_singleton.mp hin
      exact Or.inr ⟨rfl, hall m (List.mem_append_left _ hm.1)⟩
  · rintro (⟨rfl, hc⟩ | ⟨rfl, hc⟩)
    · refine ⟨List.mem_append_left _ hm.1, fun u hu => ?_⟩
      rcases List.mem_append.mp hu with hu | hu
      · exact hm.2 u hu
      · rwa [List.mem_singleton.mp hu]
    · refine ⟨by simp, fun u hu => ?_⟩
      rcases List.mem_append.mp hu with hu | hu
      · exact order.trans _ _ _ hc (hm.2 u hu)
      · rw [List.mem_singleton.mp hu]
        exact order.refl _

theorem Linearized.compete_spec {types : List TypeRef} {m c : TypeRef} (hm : h.Least types m) :
    (∃ x, h.compete (some m) c = .ok (some x) ∧ h.Least (types ++ [c]) x) ∨
      (h.compete (some m) c = .error .metaclassConflict ∧ ¬ ∃ x, h.Least (types ++ [c]) x) := by
  simp only [hl.least_concat_iff hm, compete, moreDerived]
  by_cases hmc : h.isSubtype m c = true
  · exact Or.inl ⟨m, by simp [hmc], Or.inl ⟨rfl, hmc⟩⟩
  · by_cases hcm : h.isSubtype c m = true
    · exact Or.inl ⟨c, by simp [hmc, hcm], Or.inr ⟨rfl, hcm⟩⟩
    · exact Or.inr ⟨by simp [hmc, hcm], by simp [hmc, hcm]⟩

/-- The comparisons go through iff the candidates are nested, and then find the least one. -/
theorem Linearized.foldlM_compete (types : List TypeRef) :
    (h.Nested types ∧ ∃ r, types.foldlM h.compete none = .ok r ∧
        ∀ m, r = some m ↔ h.Least types m) ∨
      (¬ h.Nested types ∧ types.foldlM h.compete none = .error .metaclassConflict) := by
  -- From the end, since every front of the list has to be resolved before its last type is.
  induction types using List.reverseRecOn with
  | nil => exact Or.inl ⟨h.nested_nil, none, rfl, by simp [Least]⟩
  | append_singleton types c ih =>
    rw [nested_concat_iff, List.foldlM_append]
    obtain ⟨nested, r, hr, least⟩ | ⟨nested, hr⟩ := ih
    · rw [hr]
      change (_ ∧ ∃ r', (h.compete r c >>= pure) = _ ∧ _) ∨ (_ ∧ (h.compete r c >>= pure) = _)
      rw [bind_pure]
      cases r with
      | none =>
        have hempty : types = [] := by
          by_contra hne
          obtain ⟨m, hm⟩ := nested types (List.prefix_refl _) hne
          exact absurd ((least m).mpr hm) (by simp)
        have hc : h.Least [c] c := by simpa [Least] using hl.isPartialOrder.refl c
        subst hempty
        refine Or.inl ⟨⟨nested, c, hc⟩, some c, rfl, fun m => ?_⟩
        rw [Option.some.injEq]
        exact ⟨fun heq => heq ▸ hc, fun hm => hl.least_unique hc hm⟩
      | some m =>
        obtain ⟨x, hx, hleast⟩ | ⟨hx, hnone⟩ := hl.compete_spec (c := c) ((least m).mp rfl)
        · refine Or.inl ⟨⟨nested, x, hleast⟩, some x, hx, fun y => ?_⟩
          rw [Option.some.injEq]
          exact ⟨fun heq => heq ▸ hleast, fun hy => hl.least_unique hleast hy⟩
        · exact Or.inr ⟨fun both => hnone both.2, hx⟩
    · rw [hr]
      exact Or.inr ⟨fun both => nested both.1, rfl⟩

theorem Linearized.resolveMetaclass_spec (given : Option TypeRef) (bases : List TypeRef) :
    (h.Nested (h.candidates given bases) ∧ ∃ r, h.resolveMetaclass given bases = .ok r ∧
        ∀ m, r = some m ↔ h.Least (h.candidates given bases) m) ∨
      (¬ h.Nested (h.candidates given bases) ∧
        h.resolveMetaclass given bases = .error .metaclassConflict) := by
  rw [resolveMetaclass_eq]
  exact hl.foldlM_compete _

end

/-! ## Definitions -/

theorem define_of_linearize {h : Heap} {c : ClassSpec} {ancestors : List TypeRef}
    (line : h.linearize c.parents = .ok ancestors) :
    h.define c = (h.resolveMetaclass c.metaclass c.parents).map fun metaclass =>
      h.drawn.addType (c.record h ancestors metaclass) := by
  unfold define
  change (h.linearize c.parents >>= _) = _
  rw [line]
  change (h.resolveMetaclass c.metaclass c.parents >>= _) = _
  cases h.resolveMetaclass c.metaclass c.parents <;> rfl

def candidatesOf (h : Heap) (c : ClassSpec) : List TypeRef := h.candidates c.metaclass c.parents

theorem Linearized.define_conflict_iff {h : Heap} (hl : h.Linearized) {c : ClassSpec}
    {ancestors : List TypeRef} (line : h.linearize c.parents = .ok ancestors) :
    h.define c = .error .metaclassConflict ↔ ¬ h.Nested (h.candidatesOf c) := by
  rw [define_of_linearize line]
  obtain ⟨nested, r, hr, -⟩ | ⟨nested, hr⟩ := hl.resolveMetaclass_spec c.metaclass c.parents
  · rw [hr]
    exact ⟨fun absurdity => (nomatch absurdity), fun hnot => absurd nested hnot⟩
  · rw [hr]
    exact ⟨fun _ => nested, fun _ => rfl⟩

theorem Linearized.metaclass_eq_some_iff {h h' : Heap} (hl : h.Linearized) {c : ClassSpec}
    {t : TypeRef} (done : h.define c = .ok (t, h')) (m : TypeRef) :
    (h'.typeAt t).metaclass = some m ↔ h.Least (h.candidatesOf c) m := by
  obtain ⟨-, ancestors, metaclass, subtypes, -, hmeta, hat⟩ := typeAt_define done
  rw [hat]
  change metaclass = some m ↔ _
  obtain ⟨-, r, hr, least⟩ | ⟨-, hr⟩ := hl.resolveMetaclass_spec c.metaclass c.parents
  · rw [hr] at hmeta
    rw [← Except.ok.inj hmeta]
    exact least m
  · rw [hr] at hmeta
    exact nomatch hmeta

theorem Linearized.nested_of_define {h h' : Heap} (hl : h.Linearized) {c : ClassSpec}
    {t : TypeRef} (done : h.define c = .ok (t, h')) : h.Nested (h.candidatesOf c) := by
  obtain ⟨-, ancestors, metaclass, subtypes, line, -, -⟩ := typeAt_define done
  by_contra nested
  rw [(hl.define_conflict_iff line).mpr nested] at done
  exact nomatch done

theorem Linearized.metaclass_eq_none_iff {h h' : Heap} (hl : h.Linearized) {c : ClassSpec}
    {t : TypeRef} (done : h.define c = .ok (t, h')) :
    (h'.typeAt t).metaclass = none ↔ h.candidatesOf c = [] := by
  constructor
  · intro hnone
    by_contra hne
    obtain ⟨m, hm⟩ := hl.nested_of_define done _ (List.prefix_refl _) hne
    rw [(hl.metaclass_eq_some_iff done m).mpr hm] at hnone
    exact nomatch hnone
  · intro hempty
    refine Option.eq_none_iff_forall_ne_some.mpr fun m hm => ?_
    have := ((hl.metaclass_eq_some_iff done m).mp hm).1
    rw [hempty] at this
    exact List.not_mem_nil this

namespace Timeline

variable {h : Nat → Heap}

/-- Whether a class whose bases can be put in line has a metaclass conflict is up to the order of
its candidates: they have to be nested. Which metaclass it gets is up to the set of them. -/
theorem metaclass_resolved (run : Timeline h) (n : Nat) (c : ClassSpec)
    {ancestors : List TypeRef} (line : (h n).linearize c.parents = .ok ancestors) :
    ((h n).define c = .error .metaclassConflict ↔ ¬ (h n).Nested ((h n).candidatesOf c)) ∧
    ((h n).Nested ((h n).candidatesOf c) → ∃ t h', (h n).define c = .ok (t, h') ∧
      ((h'.typeAt t).metaclass = none ↔ (h n).candidatesOf c = []) ∧
      ∀ m, (h'.typeAt t).metaclass = some m ↔ (h n).Least ((h n).candidatesOf c) m) ∧
    ∀ d t h₁ u h₂, (h n).define c = .ok (t, h₁) → (h n).define d = .ok (u, h₂) →
      (∀ m, m ∈ (h n).candidatesOf c ↔ m ∈ (h n).candidatesOf d) →
      (h₁.typeAt t).metaclass = (h₂.typeAt u).metaclass := by
  have hl := run.linearized n
  refine ⟨hl.define_conflict_iff line, ?_, ?_⟩
  · intro nested
    cases done : (h n).define c with
    | error fault =>
      obtain ⟨-, r, hr, -⟩ | ⟨hnot, -⟩ := hl.resolveMetaclass_spec c.metaclass c.parents
      · rw [define_of_linearize line, hr] at done
        exact nomatch done
      · exact absurd nested hnot
    | ok added =>
      obtain ⟨t, h'⟩ := added
      exact ⟨t, h', rfl, hl.metaclass_eq_none_iff done, hl.metaclass_eq_some_iff done⟩
  · intro d t h₁ u h₂ hc hd same
    refine Option.ext fun m => ?_
    rw [hl.metaclass_eq_some_iff hc, hl.metaclass_eq_some_iff hd]
    simp only [Least, same]

/-- Metaclasses 1 and 2 are unrelated, and 3 derives from both. Type 4 has metaclass 2 and type 5
has metaclass 3. -/
def metas : Nat → Heap
  | 0 => initial
  | 1 => (metas 0).tryDefine { name := "MetaA" }
  | 2 => (metas 1).tryDefine { name := "MetaB" }
  | 3 => (metas 2).tryDefine { name := "MetaC", bases := [⟨1⟩, ⟨2⟩] }
  | 4 => (metas 3).tryDefine { name := "Q", metaclass := some ⟨2⟩ }
  | 5 => (metas 4).tryDefine { name := "R", metaclass := some ⟨3⟩ }
  | n + 6 => metas (n + 5)

theorem metas_timeline : Timeline metas := by
  refine ⟨⟨_, rfl⟩, ?_⟩
  rintro (_ | _ | _ | _ | _ | n)
  · exact .tryDefine (by simp) (by simp)
  · exact .tryDefine (by simp) (by simp)
  · exact .tryDefine (by decide +kernel) (by simp)
  · exact .tryDefine (by simp) (by simp)
  · exact .tryDefine (by simp) (by simp)
  · exact .idle _

/-- Its candidates are 1, 3 and 2, in this order. -/
def early : ClassSpec := { name := "T", bases := [⟨5⟩, ⟨4⟩], metaclass := some ⟨1⟩ }

/-- The same candidates, but 2 meets 1 before 3 does. -/
def late : ClassSpec := { name := "U", bases := [⟨4⟩, ⟨5⟩], metaclass := some ⟨1⟩ }

theorem early_resolved :
    ∃ t h', (metas 5).define early = .ok (t, h') ∧ (h'.typeAt t).metaclass = some ⟨3⟩ := by
  have line : (metas 5).linearize early.parents = .ok [⟨5⟩, ⟨4⟩, .object] := by decide +kernel
  obtain ⟨-, found, -⟩ := metaclass_resolved metas_timeline 5 early line
  obtain ⟨t, h', done, -, least⟩ := found (by decide +kernel)
  exact ⟨t, h', done, (least ⟨3⟩).mpr (by decide +kernel)⟩

/-- A conflict although one candidate derives from all, and only because of the order of the
bases. -/
theorem late_conflicts :
    (metas 5).linearize late.parents = .ok [⟨4⟩, ⟨5⟩, .object] ∧
      (metas 5).Least ((metas 5).candidatesOf late) ⟨3⟩ ∧
      (metas 5).define late = .error .metaclassConflict ∧
      late.parents.Perm early.parents ∧ late.metaclass = early.metaclass ∧
      ∃ added, (metas 5).define early = .ok added := by
  have line : (metas 5).linearize late.parents = .ok [⟨4⟩, ⟨5⟩, .object] := by decide +kernel
  have again : (metas 5).linearize early.parents = .ok [⟨5⟩, ⟨4⟩, .object] := by decide +kernel
  have resolved : (metas 5).resolveMetaclass early.metaclass early.parents = .ok (some ⟨3⟩) := by
    decide +kernel
  refine ⟨line, by decide +kernel, ?_, by decide, rfl, ?_⟩
  · exact ((metas_timeline.linearized 5).define_conflict_iff line).mpr (by decide +kernel)
  · rw [define_of_linearize again, resolved]
    exact ⟨_, rfl⟩

end Timeline

end InlineCache.Heap
