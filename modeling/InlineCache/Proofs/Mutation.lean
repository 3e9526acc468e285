import InlineCache.Proofs.Descents
import Mathlib.Logic.Function.Basic

/-! # What a change to a class draws

A change to a class draws one version on each path down from it, so that exactly its subtypes get
new ones. It writes to no other dictionary. -/

namespace InlineCache.Heap

/-- These are the paths down from a type, each of them once, depth first and oldest first. -/
structure Enumerates (h : Heap) (t : TypeRef) (paths : List (List TypeRef)) : Prop where
  mem_iff : ∀ p, p ∈ paths ↔ h.Descent t p
  ordered : paths.Pairwise Precedes

theorem Links.enumerates {h : Heap} (links : h.Links) (hh : h.Hierarchy) {t : TypeRef}
    (ht : h.Has t) : Enumerates h t (h.descents t) :=
  ⟨fun _ => mem_descents (links.forward hh) ht, links.descend_ordered _ t⟩

/-- The subtypes of `t` have new versions, and the dictionary of `t` reads as `own`. -/
structure Renumbered (h h' : Heap) (t : TypeRef) (own : String → Option Value) : Prop where
  /-- Once the dictionary is written, the walk down from `t` ends, with one version drawn at the end
  of each path. -/
  walk : ∃ f, Walk (h.editAttrs t f) [t] h' ∧ (h.descents t).foldl drawEnd (h.editAttrs t f) = h'
  versions : h'.versions = h.versions + (h.descents t).length
  /-- A subtype keeps what it drew on the last of the paths that end at it. -/
  drawn : ∀ u, h.isSubtype u t = true → ∃ pre p post, h.descents t = pre ++ p :: post ∧
    p.getLast? = some u ∧ (∀ q ∈ post, q.getLast? ≠ some u) ∧
    (h'.typeAt u).version = versionTag (h.versions + pre.length)
  fresh : h'.versions < 2 ^ 64 → ∀ u v, h.isSubtype u t = true → h.Has v →
    (h.typeAt v).version < (h'.typeAt u).version
  kept : ∀ u, h.isSubtype u t = false → (h'.typeAt u).version = (h.typeAt u).version
  ownAttr : ∀ u name, h'.ownAttr u name = if u = t then own name else h.ownAttr u name
  type : ∀ u, ∃ attrs version, h'.typeAt u = { h.typeAt u with attrs, version }
  size : h'.types.size = h.types.size
  rest : h' = { h with types := h'.types, versions := h'.versions }

/-! ## Dictionaries -/

theorem typeAt_editAttrs {h : Heap} {t : TypeRef} (ht : h.Has t)
    (f : Table String Value → Table String Value) (u : TypeRef) :
    (h.editAttrs t f).typeAt u =
      { h.typeAt u with attrs := if u = t then f (h.typeAt t).attrs else (h.typeAt u).attrs } := by
  rw [editAttrs, typeAt_modifyType]
  by_cases htu : t = u
  · subst htu
    rw [if_pos ⟨rfl, ht⟩, if_pos rfl]
  · rw [if_neg fun both => htu both.1, if_neg (Ne.symm htu)]

@[simp] theorem editAttrs_id (h : Heap) (t : TypeRef) : h.editAttrs t id = h := by
  have same : h.types.modify t.index (fun r => { r with attrs := id r.attrs }) = h.types := by
    apply Array.ext
    · simp
    · intro i _ _
      simp [Array.getElem_modify]
  rw [editAttrs, modifyType, same]

theorem get?_insert_eq_update (attrs : Table String Value) (name : String) (v : Value) :
    (attrs.insert name v).get? = Function.update attrs.get? name (some v) := by
  funext x
  simp [Table.get?_insert, Function.update_apply, eq_comm]

theorem get?_erase_eq_update (attrs : Table String Value) (name : String) :
    (attrs.erase name).get? = Function.update attrs.get? name none := by
  funext x
  simp [Table.get?_erase, Function.update_apply, eq_comm]

/-! ## Versions -/

theorem exists_last {α : Type} {P : α → Prop} {l : List α} (some : ∃ a ∈ l, P a) :
    ∃ pre a post, l = pre ++ a :: post ∧ P a ∧ ∀ b ∈ post, ¬ P b := by
  induction l with
  | nil => simp at some
  | cons x l ih =>
    by_cases hl : ∃ a ∈ l, P a
    · obtain ⟨pre, a, post, rfl, ha, last⟩ := ih hl
      exact ⟨x :: pre, a, post, rfl, ha, last⟩
    · obtain ⟨a, ha, hPa⟩ := some
      rcases List.mem_cons.mp ha with rfl | ha
      · exact ⟨[], a, l, rfl, hPa, fun b hb hPb => hl ⟨b, hb, hPb⟩⟩
      · exact absurd ⟨a, ha, hPa⟩ hl

theorem has_of_isSubtype {h : Heap} {t u : TypeRef} (ht : h.Has t)
    (sub : h.isSubtype u t = true) : h.Has u := by
  rcases mem_line.mp (isSubtype_iff.mp sub) with rfl | hin
  · exact ht
  · exact has_of_mem_ancestors hin

section

variable {h g : Heap} (hl : h.Linearized) (links : h.Links) {t : TypeRef} (ht : h.Has t)

include hl links ht

/-- The draws on all paths give a subtype the version of the last one that ends at it. -/
theorem version_of_isSubtype (has : ∀ u, h.Has u → g.Has u) {u : TypeRef}
    (sub : h.isSubtype u t = true) :
    ∃ pre p post, h.descents t = pre ++ p :: post ∧ p.getLast? = some u ∧
      (∀ q ∈ post, q.getLast? ≠ some u) ∧
      (((h.descents t).foldl drawEnd g).typeAt u).version =
        versionTag (g.versions + pre.length) := by
  have paths := links.enumerates hl.toHierarchy ht
  obtain ⟨p, path, hend⟩ := (hl.isSubtype_iff_descent links).mp sub
  obtain ⟨pre, p, post, hsplit, hend, last⟩ :=
    exists_last (P := fun p => p.getLast? = some u) ⟨p, (paths.mem_iff p).mpr path, hend⟩
  refine ⟨pre, p, post, hsplit, hend, last, ?_⟩
  have full : ∀ q ∈ pre, q ≠ [] := by
    intro q hq
    have hin : q ∈ h.descents t := by
      rw [hsplit]
      exact List.mem_append_left _ hq
    exact ne_nil_of_mem_descend hin
  rw [hsplit]
  exact version_foldl_of_last g full (has u (has_of_isSubtype ht sub)) hend last

theorem version_of_not_isSubtype {u : TypeRef} (sub : h.isSubtype u t = false) :
    (((h.descents t).foldl drawEnd g).typeAt u).version = (g.typeAt u).version := by
  have paths := links.enumerates hl.toHierarchy ht
  apply version_foldl_of_not_end
  intro p hp hend
  have := (hl.isSubtype_iff_descent links).mpr ⟨p, (paths.mem_iff p).mp hp, hend⟩
  rw [sub] at this
  exact Bool.false_ne_true this

end

/-! ## Any change to a dictionary -/

theorem renumbered_editAttrs {h : Heap} (hl : h.Linearized) (links : h.Links)
    (old : h.versions < 2 ^ 64 → ∀ v, h.Has v → (h.typeAt v).version.toNat ≤ h.versions)
    {t : TypeRef} (ht : h.Has t) (f : Table String Value → Table String Value) :
    Renumbered h ((h.editAttrs t f).invalidate t) t (f (h.typeAt t).attrs).get? := by
  have e := editAttrs_edits h t f
  have at_edit := typeAt_editAttrs ht f
  have has : ∀ u, h.Has u → (h.editAttrs t f).Has u := by
    intro u hu
    rwa [Has, e.size]
  have d : Draws (h.editAttrs t f) ((h.editAttrs t f).invalidate t) := draws_refresh _ _ _
  have fold : (h.descents t).foldl drawEnd (h.editAttrs t f) = (h.editAttrs t f).invalidate t := by
    have same : SameLinks (h.editAttrs t f) h := fun u => by rw [at_edit]
    rw [invalidate, e.size, refresh_eq_foldl same, descents]
  have walk := walk_invalidate ((e.links links).forward (e.hierarchy hl.toHierarchy)) (has t ht)
  have versions : ((h.editAttrs t f).invalidate t).versions =
      h.versions + (h.descents t).length := by
    rw [← fold]
    exact versions_foldl_drawEnd (fun _ => ne_nil_of_mem_descend) _
  have drawn := fun u => version_of_isSubtype hl links ht (u := u) has
  rw [fold] at drawn
  refine ⟨⟨f, walk, fold⟩, versions, drawn, ?_, ?_, ?_, ?_, d.same.size.trans e.size, d.same.rest⟩
  · intro fits u v sub hv
    obtain ⟨pre, p, post, hsplit, -, -, hversion⟩ := drawn u sub
    have hlt : pre.length < (h.descents t).length := by
      rw [hsplit, List.length_append, List.length_cons]
      omega
    rw [versions] at fits
    have hle := old (by omega) v hv
    rw [UInt64.lt_iff_toNat_lt, hversion, toNat_versionTag]
    · change _ < h.versions + _ + 1
      omega
    · change h.versions + _ + 1 < _
      omega
  · intro u sub
    rw [← fold, version_of_not_isSubtype hl links ht sub, at_edit]
  · intro u name
    rw [Heap.ownAttr, d.same.type u, at_edit]
    split <;> rfl
  · intro u
    rw [d.same.type u, at_edit]
    exact ⟨_, _, rfl⟩

namespace Timeline

variable {h : Nat → Heap}

/-- At every moment of a run a change to a class gives new versions, greater than all there are, to
its subtypes and to no others, and changes the dictionary of the class in one entry at most. To
delete what is not there changes nothing. -/
theorem mutation_renumbers_subtypes (run : Timeline h) (n : Nat) (t : TypeRef) (ht : (h n).Has t) :
    Enumerates (h n) t ((h n).descents t) ∧
    Renumbered (h n) ((h n).invalidate t) t ((h n).ownAttr t) ∧
    (∀ name v, Renumbered (h n) ((h n).setAttr t name v) t
      (Function.update ((h n).ownAttr t) name (some v))) ∧
    (∀ name v, (h n).ownAttr t name = some v →
      ∃ h', (h n).deleteAttr t name = (some v, h') ∧
        Renumbered (h n) h' t (Function.update ((h n).ownAttr t) name none)) ∧
    ∀ name, (h n).ownAttr t name = none → (h n).deleteAttr t name = (none, h n) := by
  have hl := run.linearized n
  have links := run.links n
  have edited := renumbered_editAttrs hl links (fun fits => (run.wellFormed n fits).version_le) ht
  refine ⟨links.enumerates hl.toHierarchy ht, ?_, ?_, ?_, ?_⟩
  · have := edited id
    rwa [editAttrs_id] at this
  · intro name v
    have := edited (·.insert name v)
    rwa [get?_insert_eq_update] at this
  · intro name v hv
    have := edited (·.erase name)
    rw [get?_erase_eq_update] at this
    refine ⟨_, ?_, this⟩
    rw [deleteAttr, hv]
    rfl
  · intro name hv
    rw [deleteAttr, hv]

/-- Two paths lead from type 1 to type 4, which keeps the version of the second. -/
theorem diamond_renumbered :
    (diamond 6).descents ⟨1⟩ =
      [[⟨1⟩], [⟨1⟩, ⟨2⟩], [⟨1⟩, ⟨2⟩, ⟨4⟩], [⟨1⟩, ⟨3⟩], [⟨1⟩, ⟨3⟩, ⟨4⟩]] ∧
    ((diamond 6).setAttr ⟨1⟩ "x" .none).versions = (diamond 6).versions + 5 ∧
    (((diamond 6).setAttr ⟨1⟩ "x" .none).typeAt ⟨4⟩).version =
      versionTag ((diamond 6).versions + 4) ∧
    (∀ v, (diamond 6).Has v → ((diamond 6).typeAt v).version <
      (((diamond 6).setAttr ⟨1⟩ "x" .none).typeAt ⟨4⟩).version) ∧
    (((diamond 6).setAttr ⟨1⟩ "x" .none).typeAt .object).version =
      ((diamond 6).typeAt .object).version ∧
    (diamond 6).deleteAttr ⟨2⟩ "x" = (none, diamond 6) := by
  obtain ⟨-, -, set, -, -⟩ :=
    mutation_renumbers_subtypes diamond_timeline 6 ⟨1⟩ (by decide +kernel)
  obtain ⟨-, -, -, -, absent⟩ :=
    mutation_renumbers_subtypes diamond_timeline 6 ⟨2⟩ (by decide +kernel)
  have set := set "x" .none
  have paths : (diamond 6).descents ⟨1⟩ =
      [[⟨1⟩], [⟨1⟩, ⟨2⟩], [⟨1⟩, ⟨2⟩, ⟨4⟩], [⟨1⟩, ⟨3⟩], [⟨1⟩, ⟨3⟩, ⟨4⟩]] := by
    decide +kernel
  refine ⟨paths, ?_, by decide +kernel, ?_, ?_, absent "x" (by decide +kernel)⟩
  · rw [set.versions, paths]
    rfl
  · exact fun v => set.fresh (by decide +kernel) ⟨4⟩ v (by decide +kernel)
  · exact set.kept .object (by decide +kernel)

end Timeline

end InlineCache.Heap
