import InlineCache.Proofs.Hierarchy

/-! # A version names one state of one type

Whatever changes what a look-up on a type finds draws a new version for it. -/

namespace InlineCache.Heap

/-- The counters of versions and of layouts have not wrapped around. -/
structure Fits (h : Heap) : Prop where
  versions : h.versions < 2 ^ 64
  layouts : h.layouts.size + 63 ≤ 2 ^ 32

instance (h : Heap) : Decidable h.Fits :=
  decidable_of_iff (h.versions < 2 ^ 64 ∧ h.layouts.size + 63 ≤ 2 ^ 32)
    ⟨fun ⟨v, l⟩ => ⟨v, l⟩, fun ⟨v, l⟩ => ⟨v, l⟩⟩

/-! ## What no change touches -/

/-- Functions, layouts and most of what a type is stay as they are; counters only go up. -/
structure Grows (h h' : Heap) : Prop where
  types : h.types.size ≤ h'.types.size
  type : ∀ t, h.Has t → ∃ attrs version subtypes,
    h'.typeAt t = { h.typeAt t with attrs, version, subtypes }
  functions : h'.functions = h.functions
  layouts : h.layouts.size ≤ h'.layouts.size
  layoutAt : ∀ l : LayoutRef, l.index < h.layouts.size → h'.layoutAt l = h.layoutAt l
  versions : h.versions ≤ h'.versions

theorem Grows.refl (h : Heap) : Grows h h :=
  ⟨Nat.le_refl _, fun _ _ => ⟨_, _, _, rfl⟩, rfl, Nat.le_refl _, fun _ _ => rfl, Nat.le_refl _⟩

theorem Grows.has {h h' : Heap} (g : Grows h h') {t : TypeRef} (ht : h.Has t) : h'.Has t :=
  Nat.lt_of_lt_of_le ht g.types

theorem Grows.fits {h h' : Heap} (g : Grows h h') (fits : h'.Fits) : h.Fits := by
  have := g.layouts
  have := fits.layouts
  exact ⟨Nat.lt_of_le_of_lt g.versions fits.versions, by omega⟩

theorem Grows.trans {h₁ h₂ h₃ : Heap} (a : Grows h₁ h₂) (b : Grows h₂ h₃) : Grows h₁ h₃ := by
  refine ⟨a.types.trans b.types, ?_, b.functions.trans a.functions, a.layouts.trans b.layouts, ?_,
    a.versions.trans b.versions⟩
  · intro t ht
    obtain ⟨_, _, _, h₂₃⟩ := b.type t (a.has ht)
    obtain ⟨_, _, _, h₁₂⟩ := a.type t ht
    exact ⟨_, _, _, by rw [h₂₃, h₁₂]⟩
  · intro l hl
    rw [b.layoutAt l (Nat.lt_of_lt_of_le hl a.layouts), a.layoutAt l hl]

/-- Types keep all but their attributes and versions. -/
structure Edits (h h' : Heap) : Prop where
  size : h'.types.size = h.types.size
  type : ∀ t, ∃ attrs version, h'.typeAt t = { h.typeAt t with attrs, version }
  functions : h'.functions = h.functions
  layouts : h'.layouts = h.layouts
  versions : h.versions ≤ h'.versions

theorem Edits.trans {h₁ h₂ h₃ : Heap} (a : Edits h₁ h₂) (b : Edits h₂ h₃) : Edits h₁ h₃ := by
  refine ⟨b.size.trans a.size, ?_, b.functions.trans a.functions, b.layouts.trans a.layouts,
    a.versions.trans b.versions⟩
  intro t
  obtain ⟨_, _, h₂₃⟩ := b.type t
  obtain ⟨_, _, h₁₂⟩ := a.type t
  exact ⟨_, _, by rw [h₂₃, h₁₂]⟩

theorem Edits.grows {h h' : Heap} (e : Edits h h') : Grows h h' := by
  refine ⟨e.size.ge, ?_, e.functions, (congrArg Array.size e.layouts).ge, ?_, e.versions⟩
  · intro t _
    obtain ⟨attrs, version, heq⟩ := e.type t
    exact ⟨attrs, version, _, heq⟩
  · intro l _
    rw [layoutAt, layoutAt, e.layouts]

theorem Edits.hierarchy {h h' : Heap} (e : Edits h h') (hh : h.Hierarchy) : h'.Hierarchy := by
  have hhas : ∀ t, h'.Has t ↔ h.Has t := by
    intro t
    rw [Has, Has, e.size]
  have hbases : ∀ t, (h'.typeAt t).bases = (h.typeAt t).bases := by
    intro t
    obtain ⟨_, _, heq⟩ := e.type t
    rw [heq]
  have hline : ∀ t, h'.line t = h.line t := by
    intro t
    obtain ⟨_, _, heq⟩ := e.type t
    rw [line, line, heq]
  refine ⟨(hhas _).mpr hh.root, ?_, ?_, ?_, ?_, ?_, ?_⟩
  · obtain ⟨_, _, heq⟩ := e.type .object
    rw [heq]
    exact hh.system
  · intro t ht
    rw [hbases]
    exact hh.bases t ((hhas t).mp ht)
  · intro t ht x hx
    obtain ⟨_, _, heq⟩ := e.type t
    rw [heq] at hx
    obtain ⟨b, hb, hxb⟩ := hh.ancestors t ((hhas t).mp ht) x hx
    exact ⟨b, by rwa [hbases], by rwa [hline]⟩
  · intro t ht b hb
    obtain ⟨_, _, heq⟩ := e.type b
    rw [hbases] at hb
    rw [heq]
    exact hh.subtypes t ((hhas t).mp ht) b hb
  · intro t ht
    obtain ⟨_, _, heq⟩ := e.type t
    rw [heq, e.layouts]
    exact hh.layout t ((hhas t).mp ht)
  · intro l hl
    rw [e.layouts] at hl
    rw [layoutAt, e.layouts]
    exact hh.number l hl

theorem Draws.edits {h h' : Heap} (d : Draws h h') : Edits h h' := by
  have s := d.same
  exact ⟨s.size, fun t => ⟨_, _, s.type t⟩, by rw [s.rest], by rw [s.rest], s.versions⟩

/-- Changes the attributes of a type and nothing else. -/
def editAttrs (h : Heap) (t : TypeRef) (f : Table String Value → Table String Value) : Heap :=
  h.modifyType t fun r => { r with attrs := f r.attrs }

theorem editAttrs_edits (h : Heap) (t : TypeRef) (f : Table String Value → Table String Value) :
    Edits h (h.editAttrs t f) := by
  refine ⟨size_modifyType h t _, ?_, rfl, rfl, Nat.le_refl _⟩
  intro u
  rw [editAttrs, typeAt_modifyType]
  split
  · exact ⟨_, _, rfl⟩
  · exact ⟨_, _, rfl⟩

/-! ## What a version stands for -/

/-- Every version names one type, and no version is ahead of the counter. -/
structure WellFormed (h : Heap) : Prop extends Hierarchy h where
  version_pos : ∀ t, h.Has t → 0 < (h.typeAt t).version.toNat
  version_le : ∀ t, h.Has t → (h.typeAt t).version.toNat ≤ h.versions
  version_inj : ∀ t u, h.Has t → h.Has u → (h.typeAt t).version = (h.typeAt u).version → t = u

theorem wellFormed_initial (functions : Array FunctionRecord) :
    WellFormed { initial with functions } := by
  have hroot := eq_object_of_has_initial functions
  refine ⟨hierarchy_initial functions, ?_, ?_, ?_⟩
  · intro t ht
    rw [hroot t ht]
    exact Nat.one_pos
  · intro t ht
    rw [hroot t ht]
    exact Nat.le_refl 1
  · intro t u ht hu _
    rw [hroot t ht, hroot u hu]

/-- A type keeps its version, and look-ups on it find what they found. -/
structure Kept (h h' : Heap) (t : TypeRef) : Prop where
  has : h.Has t
  version : (h'.typeAt t).version = (h.typeAt t).version
  lookup : ∀ name, h'.lookup t name = h.lookup t name

/-- Every type is kept, or its version was drawn since. -/
def Tracks (h h' : Heap) : Prop :=
  ∀ t, h'.Has t → Kept h h' t ∨ h.versions < (h'.typeAt t).version.toNat

theorem Tracks.refl (h : Heap) : Tracks h h := fun _ ht => Or.inl ⟨ht, rfl, fun _ => rfl⟩

theorem Tracks.trans {h₁ h₂ h₃ : Heap} (a : Tracks h₁ h₂) (b : Tracks h₂ h₃)
    (g : Grows h₁ h₂) : Tracks h₁ h₃ := by
  intro t ht
  rcases b t ht with kept | fresh
  · rcases a t kept.has with kept' | fresh'
    · exact Or.inl ⟨kept'.has, kept.version.trans kept'.version,
        fun name => (kept.lookup name).trans (kept'.lookup name)⟩
    · exact Or.inr (by rwa [kept.version])
  · exact Or.inr (g.versions.trans_lt fresh)

theorem lookup_congr {h h' : Heap} {t : TypeRef} (hline : h'.line t = h.line t)
    (hattrs : ∀ x ∈ h.line t, (h'.typeAt x).attrs = (h.typeAt x).attrs) (name : String) :
    h'.lookup t name = h.lookup t name := by
  unfold lookup
  rw [hline]
  generalize h.line t = l at hattrs
  induction l with
  | nil => rfl
  | cons x rest ih =>
    have hown : h'.ownAttr x name = h.ownAttr x name := by
      rw [ownAttr, ownAttr, hattrs x List.mem_cons_self]
    rw [List.findSome?_cons, List.findSome?_cons, hown,
      ih fun y hy => hattrs y (List.mem_cons_of_mem x hy)]

/-! ## Drawing versions -/

theorem WellFormed.drawVersion {h : Heap} (hw : h.WellFormed) (t : TypeRef)
    (fits : h.versions + 1 < 2 ^ 64) : (h.drawVersion t).WellFormed := by
  have d : Draws h (h.drawVersion t) := .single ⟨t, rfl⟩
  have hhas : ∀ u, (h.drawVersion t).Has u ↔ h.Has u := by
    intro u
    rw [Has, Has, size_drawVersion]
  have hnew := toNat_versionTag fits
  refine ⟨d.edits.hierarchy hw.toHierarchy, ?_, ?_, ?_⟩
  · intro u hu
    have hpos := hw.version_pos u ((hhas u).mp hu)
    rw [typeAt_drawVersion]
    split
    · exact hnew.ge.trans_lt' (Nat.succ_pos _)
    · exact hpos
  · intro u hu
    have hle := hw.version_le u ((hhas u).mp hu)
    rw [typeAt_drawVersion, versions_drawVersion]
    split
    · exact hnew.le
    · omega
  · intro u v hu hv heq
    have hu := (hhas u).mp hu
    have hv := (hhas v).mp hv
    have hule := hw.version_le u hu
    have hvle := hw.version_le v hv
    rw [typeAt_drawVersion, typeAt_drawVersion] at heq
    -- The new version is greater than every other one.
    by_cases htu : t = u <;> by_cases htv : t = v
    · exact htu.symm.trans htv
    · simp only [htu, hu, and_self, if_true] at heq
      rw [if_neg (by simp [← htu, htv])] at heq
      have := congrArg UInt64.toNat heq
      simp only [hnew] at this
      omega
    · simp only [htv, hv, and_self, if_true] at heq
      rw [if_neg (by simp [← htv, htu])] at heq
      have := congrArg UInt64.toNat heq
      simp only [hnew] at this
      omega
    · simp only [htu, htv, false_and, if_false] at heq
      exact hw.version_inj u v hu hv heq

theorem Draws.wellFormed {h h' : Heap} (d : Draws h h') (hw : h.WellFormed)
    (fits : h'.versions < 2 ^ 64) : h'.WellFormed := by
  induction d with
  | refl => exact hw
  | tail _ step ih =>
    obtain ⟨t, rfl⟩ := step
    rw [versions_drawVersion] at fits
    exact (ih (by omega)).drawVersion t fits

/-! ## Attributes -/

theorem WellFormed.editAttrs {h : Heap} (hw : h.WellFormed) (t : TypeRef)
    (f : Table String Value → Table String Value) : (h.editAttrs t f).WellFormed := by
  have hsize : (h.editAttrs t f).types.size = h.types.size := size_modifyType h t _
  have hversion : ∀ u, ((h.editAttrs t f).typeAt u).version = (h.typeAt u).version := by
    intro u
    rw [Heap.editAttrs, typeAt_modifyType]
    split <;> rfl
  refine ⟨(editAttrs_edits h t f).hierarchy hw.toHierarchy, ?_, ?_, ?_⟩
  · intro u hu
    rw [Has, hsize] at hu
    rw [hversion]
    exact hw.version_pos u hu
  · intro u hu
    rw [Has, hsize] at hu
    rw [hversion]
    exact hw.version_le u hu
  · intro u v hu hv heq
    rw [Has, hsize] at hu hv
    rw [hversion, hversion] at heq
    exact hw.version_inj u v hu hv heq

/-- A type whose line does not meet the edited one is kept; every other one draws a version. -/
theorem editAttrs_tracks {h : Heap} (hw : h.WellFormed) (t : TypeRef)
    (f : Table String Value → Table String Value)
    (fits : ((h.editAttrs t f).invalidate t).versions < 2 ^ 64) :
    Tracks h ((h.editAttrs t f).invalidate t) := by
  have edited := editAttrs_edits h t f
  have d : Draws (h.editAttrs t f) ((h.editAttrs t f).invalidate t) := draws_refresh _ _ _
  have all := edited.trans d.edits
  intro u hu
  rw [Has, all.size] at hu
  rcases d.version fits u with hsame | hfresh
  · refine Or.inl ⟨hu, ?_, ?_⟩
    · rw [hsame, editAttrs, typeAt_modifyType]
      split <;> rfl
    -- Had `t` been in line, a path would lead down to `u`, which would have drawn.
    · have hnot : t ∉ h.line u := by
        intro ht
        have hh := edited.hierarchy hw.toHierarchy
        have hline : (h.editAttrs t f).line u = h.line u := by
          obtain ⟨_, _, heq⟩ := edited.type u
          rw [line, line, heq]
        have hu' : (h.editAttrs t f).Has u := by rwa [Has, edited.size]
        obtain ⟨k, path, hk⟩ := hh.below u t hu' (by rwa [hline])
        have hlt : k < (h.editAttrs t f).types.size := by
          have : u.index < (h.editAttrs t f).types.size := hu'
          omega
        have hfresh := refresh_fresh _ _ t path hlt hu' fits
        have hle := (hw.editAttrs t f).version_le u hu'
        rw [invalidate] at hsame
        rw [hsame] at hfresh
        omega
      apply lookup_congr
      · obtain ⟨_, _, heq⟩ := all.type u
        rw [line, line, heq]
      · intro x hx
        rw [d.same.type x, editAttrs, typeAt_modifyType, if_neg]
        rintro ⟨rfl, _⟩
        exact hnot hx
  · exact Or.inr hfresh

theorem Draws.tracks {h h' : Heap} (d : Draws h h') (fits : h'.versions < 2 ^ 64) :
    Tracks h h' := by
  intro t ht
  rw [Has, d.same.size] at ht
  rcases d.version fits t with hsame | hfresh
  · refine Or.inl ⟨ht, hsame, lookup_congr ?_ fun x _ => ?_⟩
    · rw [line, line, d.same.type t]
    · rw [d.same.type x]
  · exact Or.inr hfresh

end InlineCache.Heap
