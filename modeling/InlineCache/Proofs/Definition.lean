import InlineCache.Proofs.Timeline

/-! # What a definition adds

A definition that succeeds adds one type, and all that is known of it can be read off the text of
the class and the heap before. -/

namespace InlineCache

/-- The bases that the class gets. -/
def ClassSpec.parents (c : ClassSpec) : List TypeRef :=
  if c.bases.isEmpty then [.object] else c.bases

/-- The new type as `define` works it out. -/
def ClassSpec.record (c : ClassSpec) (h : Heap) (ancestors : List TypeRef)
    (metaclass : Option TypeRef) : TypeRecord where
  id := h.registry.nextId
  name := c.name
  bases := c.parents
  ancestors
  layout := c.layout.getD (h.typeAt (c.parents.headD .object)).layout
  flags := { system := c.system, classic := c.classic, mixed := h.mixes c.classic ancestors }
  metaclass
  attrs := Table.ofList c.attrs
  version := versionTag h.versions
  subtypes := []

theorem ClassSpec.parents_ne_nil (c : ClassSpec) : c.parents ≠ [] := by
  unfold parents
  split <;> simp_all

namespace Heap

/-- The heap once the identity of a new type is drawn. -/
def drawn (h : Heap) : Heap :=
  { h with registry := h.registry.allocate.2, versions := h.versions + 1 }

theorem has_parents {h : Heap} (hh : h.Hierarchy) {c : ClassSpec} (bases : ∀ b ∈ c.bases, h.Has b) :
    ∀ b ∈ c.parents, h.Has b := by
  intro b hb
  unfold ClassSpec.parents at hb
  split at hb
  · rw [List.mem_singleton.mp hb]
    exact hh.root
  · exact bases b hb

theorem define_eq_ok_iff {h h' : Heap} {c : ClassSpec} {t : TypeRef} :
    h.define c = .ok (t, h') ↔ ∃ ancestors metaclass, h.linearize c.parents = .ok ancestors ∧
      h.resolveMetaclass c.metaclass c.parents = .ok metaclass ∧
      h.drawn.addType (c.record h ancestors metaclass) = (t, h') := by
  unfold define
  change (h.linearize c.parents >>= _) = _ ↔ _
  cases hl : h.linearize c.parents with
  | error fault => simp [bind, Except.bind]
  | ok ancestors =>
    change (h.resolveMetaclass c.metaclass c.parents >>= _) = _ ↔ _
    cases hm : h.resolveMetaclass c.metaclass c.parents with
    | error fault => simp [bind, Except.bind]
    | ok metaclass =>
      constructor
      · intro done
        exact ⟨ancestors, metaclass, rfl, rfl, Except.ok.inj done⟩
      · rintro ⟨_, _, ⟨⟩, ⟨⟩, hadd⟩
        exact congrArg Except.ok hadd

theorem typeAt_addType (h : Heap) (r : TypeRecord) :
    (h.addType r).1 = ⟨h.types.size⟩ ∧
      ∃ subtypes, (h.addType r).2.typeAt ⟨h.types.size⟩ = { r with subtypes } := by
  obtain ⟨subtypes, heq⟩ :=
    (linked_foldl ⟨h.types.size⟩ r.bases { h with types := h.types.push r }).type ⟨h.types.size⟩
  rw [typeAt_push, if_pos rfl] at heq
  exact ⟨rfl, subtypes, heq⟩

theorem typeAt_define {h h' : Heap} {c : ClassSpec} {t : TypeRef}
    (done : h.define c = .ok (t, h')) :
    t = ⟨h.types.size⟩ ∧ ∃ ancestors metaclass subtypes, h.linearize c.parents = .ok ancestors ∧
      h.resolveMetaclass c.metaclass c.parents = .ok metaclass ∧
      h'.typeAt t = { c.record h ancestors metaclass with subtypes } := by
  obtain ⟨ancestors, metaclass, hl, hm, hadd⟩ := define_eq_ok_iff.mp done
  obtain ⟨ht, subtypes, hat⟩ := typeAt_addType h.drawn (c.record h ancestors metaclass)
  rw [hadd] at ht hat
  dsimp only at ht hat
  subst ht
  exact ⟨rfl, ancestors, metaclass, subtypes, hl, hm, hat⟩

theorem size_define {h h' : Heap} {c : ClassSpec} {t : TypeRef} (done : h.define c = .ok (t, h')) :
    h'.types.size = h.types.size + 1 := by
  obtain ⟨ancestors, metaclass, -, -, hadd⟩ := define_eq_ok_iff.mp done
  obtain rfl := congrArg Prod.snd hadd
  exact (linked_foldl _ _ _).size.trans (Array.size_push _)

theorem has_of_define {h h' : Heap} {c : ClassSpec} {t : TypeRef}
    (done : h.define c = .ok (t, h')) : h'.Has t := by
  rw [Has, size_define done, (typeAt_define done).1]
  exact Nat.lt_succ_self _

theorem Change.has {h h' : Heap} (change : h.Change h') {t : TypeRef} (ht : h'.Has t) :
    h.Has t ∨ ∃ c, (∀ b ∈ c.bases, h.Has b) ∧ h.define c = .ok (t, h') := by
  have same : h'.types.size = h.types.size → h.Has t := by
    intro hsize
    rwa [Has, hsize] at ht
  cases change with
  | @define c u _ bases layout done =>
    obtain ⟨rfl, -⟩ := typeAt_define done
    by_cases hold : h.Has t
    · exact Or.inl hold
    · have hsize := size_define done
      obtain ⟨i⟩ := t
      obtain rfl : i = h.types.size := by simp only [Has] at ht hold; omega
      exact Or.inr ⟨c, bases, done⟩
  | setAttr u name v => exact Or.inl (same (editAttrs_invalidate_edits h u (·.insert name v)).size)
  | deleteAttr u name =>
    rcases deleteAttr_eq h u name with heq | heq
    · exact Or.inl (same (by rw [heq]))
    · exact Or.inl (same (by rw [heq]; exact (editAttrs_invalidate_edits h u _).size))
  | invalidate u => exact Or.inl (same (draws_refresh _ h u).edits.size)
  | addLayout name ctors => exact Or.inl (same rfl)
  | aside types => exact Or.inl (same (by rw [types]))

end Heap

end InlineCache
