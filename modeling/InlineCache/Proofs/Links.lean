import InlineCache.Proofs.Ancestry

/-! # Bases and links

A type keeps links down to the types that derive from it directly. Bases are written once and links
grow with every definition, yet both tell the same: the links of a type lead to the types that name
it as a base, once each and oldest first. -/

namespace InlineCache.Heap

/-- The types that name `b` as a base, oldest first. -/
def subclasses (h : Heap) (b : TypeRef) : List TypeRef :=
  ((List.range h.types.size).map TypeRef.mk).filter fun t => b ∈ (h.typeAt t).bases

/-- The links of every type lead to the types that name it as a base. -/
def Links (h : Heap) : Prop := ∀ b, (h.typeAt b).subtypes = h.subclasses b

/-! ## What links say -/

section

variable {h : Heap} (links : h.Links)

include links

theorem Links.mem_iff (hh : h.Hierarchy) {t u : TypeRef} :
    u ∈ (h.typeAt t).subtypes ↔ h.Derives u t := by
  constructor
  · intro hu
    rw [links t] at hu
    exact of_decide_eq_true (p := t ∈ (h.typeAt u).bases) (List.mem_filter.mp hu).2
  · intro hb
    exact hh.subtypes u (has_of_derives hb) t hb

theorem Links.sorted (t : TypeRef) :
    (h.typeAt t).subtypes.Pairwise fun u v => u.index < v.index := by
  rw [links t]
  apply List.Pairwise.filter
  rw [List.pairwise_map]
  exact List.pairwise_lt_range

end

/-! ## In every heap of a run -/

theorem links_initial (functions : Array FunctionRecord) : Links { initial with functions } := by
  intro b
  by_cases hb : Has { initial with functions } b
  · rw [eq_object_of_has_initial functions b hb]
    rfl
  · rw [typeAt_of_not_has hb]
    rfl

theorem Edits.links {h h' : Heap} (e : Edits h h') (links : h.Links) : h'.Links := by
  have same : ∀ t, (h'.typeAt t).bases = (h.typeAt t).bases ∧
      (h'.typeAt t).subtypes = (h.typeAt t).subtypes := by
    intro t
    obtain ⟨_, _, heq⟩ := e.type t
    rw [heq]
    exact ⟨rfl, rfl⟩
  have hsub : h'.subclasses = h.subclasses := by
    funext b
    simp only [subclasses, e.size, (same _).1]
  intro b
  rw [(same b).2, hsub]
  exact links b

theorem nodup_of_linearize {h : Heap} {bases order : List TypeRef}
    (hl : h.linearize bases = .ok order) : bases.Nodup := by
  have keeps := keeps_of_linearize hl
  have hsub := keeps.sublist bases (List.mem_append_right _ (List.mem_singleton_self bases))
  exact keeps.nodup.sublist hsub

theorem subtypes_foldl (t : TypeRef) {bases : List TypeRef} (distinct : bases.Nodup) (h : Heap)
    (has : ∀ b ∈ bases, h.Has b) (b : TypeRef) :
    ((bases.foldl (fun h b => h.modifyType b fun p => { p with subtypes := p.subtypes ++ [t] })
      h).typeAt b).subtypes = (h.typeAt b).subtypes ++ if b ∈ bases then [t] else [] := by
  induction bases generalizing h with
  | nil => simp
  | cons c rest ih =>
    obtain ⟨hc, distinct⟩ := List.nodup_cons.mp distinct
    rw [List.forall_mem_cons] at has
    rw [List.foldl_cons, ih distinct _ (by simpa only [Has, size_modifyType] using has.2),
      typeAt_modifyType]
    by_cases hcb : c = b
    · subst hcb
      simp [has.1, hc]
    · simp [hcb, Ne.symm hcb]

theorem subtypes_addType (h : Heap) {r : TypeRecord} (bare : r.subtypes = [])
    (distinct : r.bases.Nodup) (has : ∀ b ∈ r.bases, h.Has b) (b : TypeRef) :
    ((h.addType r).2.typeAt b).subtypes =
      (h.typeAt b).subtypes ++ if b ∈ r.bases then [⟨h.types.size⟩] else [] := by
  have has' : ∀ b ∈ r.bases, { h with types := h.types.push r }.Has b := by
    intro b hb
    rw [Has, Array.size_push]
    exact Nat.lt_succ_of_lt (has b hb)
  refine (subtypes_foldl _ distinct _ has' b).trans (congrArg (· ++ _) ?_)
  rw [typeAt_push]
  split
  next hnew =>
    have hnot : ¬ h.Has b := Nat.not_lt.mpr hnew.ge
    rw [typeAt_of_not_has hnot, bare]
    rfl
  next => rfl

section

variable {h h' : Heap} (hh : h.Hierarchy) {c : ClassSpec} {t : TypeRef}
  (bases : ∀ b ∈ c.bases, h.Has b) (done : h.define c = .ok (t, h'))

include hh bases done

theorem subtypes_define (b : TypeRef) :
    (h'.typeAt b).subtypes = (h.typeAt b).subtypes ++ if b ∈ c.parents then [t] else [] := by
  obtain ⟨ancestors, metaclass, hl, -, hadd⟩ := define_eq_ok_iff.mp done
  obtain ⟨rfl, rfl⟩ := Prod.mk.inj hadd
  exact subtypes_addType h.drawn rfl (nodup_of_linearize hl) (has_parents hh bases) b

theorem subclasses_define (layout : ∀ l ∈ c.layout, l.index < h.layouts.size) (b : TypeRef) :
    h'.subclasses b = h.subclasses b ++ if b ∈ c.parents then [t] else [] := by
  obtain ⟨rfl, ancestors, metaclass, subtypes, -, -, hat⟩ := typeAt_define done
  have g := (define_defined hh bases layout done).grows
  have hold : ∀ u ∈ (List.range h.types.size).map TypeRef.mk,
      (h'.typeAt u).bases = (h.typeAt u).bases := by
    intro u hu
    obtain ⟨i, hi, rfl⟩ := List.mem_map.mp hu
    exact g.bases (List.mem_range.mp hi)
  have hnew : (h'.typeAt ⟨h.types.size⟩).bases = c.parents := by
    rw [hat]
    rfl
  rw [subclasses, size_define done, List.range_succ, List.map_append, List.filter_append,
    List.filter_congr fun u hu => by rw [hold u hu]]
  simp [subclasses, List.filter_cons, hnew]

end

theorem Change.links {h h' : Heap} (change : h.Change h') (hh : h.Hierarchy) (links : h.Links) :
    h'.Links := by
  cases change with
  | define bases layout done =>
    intro b
    rw [subtypes_define hh bases done, subclasses_define hh bases done layout, links b]
  | setAttr t name v => exact (editAttrs_invalidate_edits h t (·.insert name v)).links links
  | deleteAttr t name =>
    rcases deleteAttr_eq h t name with heq | heq <;> rw [heq]
    · exact links
    · exact (editAttrs_invalidate_edits h t _).links links
  | invalidate t => exact (draws_refresh _ h t).edits.links links
  | addLayout name ctors => exact links
  | aside types functions layouts versions =>
    exact (aside_edits types functions layouts versions).links links

theorem Timeline.links {h : Nat → Heap} (run : Timeline h) : ∀ n, (h n).Links :=
  run.invariant links_initial fun n => (run.step n).links (run.hierarchy n)

end InlineCache.Heap
