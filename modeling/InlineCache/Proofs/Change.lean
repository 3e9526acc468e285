import InlineCache.Proofs.Versions

/-! # One change to the heap

Each change keeps the heap well-formed, and keeps every type or draws a version for it. -/

namespace InlineCache.Heap

/-- One change to the heap. Functions do not come and go, and what is named exists. -/
inductive Change (h : Heap) : Heap → Prop
  | define {c : ClassSpec} {t : TypeRef} {h' : Heap} (bases : ∀ b ∈ c.bases, h.Has b)
      (layout : ∀ l ∈ c.layout, l.index < h.layouts.size) (done : h.define c = .ok (t, h')) :
      Change h h'
  | setAttr (t : TypeRef) (name : String) (v : Value) : Change h (h.setAttr t name v)
  | deleteAttr (t : TypeRef) (name : String) : Change h (h.deleteAttr t name).2
  | invalidate (t : TypeRef) : Change h (h.invalidate t)
  | addLayout (name : String) (ctors : List NativeCtor) : Change h (h.addLayout name ctors).2
  /-- Objects, built-in functions, identities and the registry are nothing to types. -/
  | aside {h' : Heap} (types : h'.types = h.types) (functions : h'.functions = h.functions)
      (layouts : h'.layouts = h.layouts) (versions : h'.versions = h.versions) : Change h h'

/-! ## Defining a type -/

theorem typeAt_push (h : Heap) (r : TypeRecord) (t : TypeRef) :
    { h with types := h.types.push r }.typeAt t =
      if t.index = h.types.size then r else h.typeAt t :=
  getD_push h.types r t.index default

/-- A type is linked below each of these types, and nothing else changes. -/
structure Linked (t : TypeRef) (bases : List TypeRef) (h h' : Heap) : Prop where
  size : h'.types.size = h.types.size
  rest : h' = { h with types := h'.types }
  type : ∀ u, ∃ subtypes, h'.typeAt u = { h.typeAt u with subtypes }
  old : ∀ u, ∀ x ∈ (h.typeAt u).subtypes, x ∈ (h'.typeAt u).subtypes
  new : ∀ b ∈ bases, h.Has b → t ∈ (h'.typeAt b).subtypes

theorem linked_foldl (t : TypeRef) (bases : List TypeRef) (h : Heap) :
    Linked t bases h (bases.foldl
      (fun h b => h.modifyType b fun p => { p with subtypes := p.subtypes ++ [t] }) h) := by
  induction bases generalizing h with
  | nil => exact ⟨rfl, rfl, fun u => ⟨_, rfl⟩, fun _ _ hx => hx, by simp⟩
  | cons b rest ih =>
    let f : TypeRecord → TypeRecord := fun p => { p with subtypes := p.subtypes ++ [t] }
    have hrest := ih (h.modifyType b f)
    rw [List.foldl_cons]
    refine ⟨hrest.size.trans (size_modifyType h b f), ?_, ?_, ?_, ?_⟩
    · rw [hrest.rest]
      rfl
    · intro u
      obtain ⟨subtypes, heq⟩ := hrest.type u
      rw [typeAt_modifyType] at heq
      split at heq
      · exact ⟨subtypes, heq⟩
      · exact ⟨subtypes, heq⟩
    · intro u x hx
      apply hrest.old
      rw [typeAt_modifyType]
      split
      · exact List.mem_append_left _ hx
      · exact hx
    · intro c hc hhas
      by_cases hcb : b = c
      · apply hrest.old
        rw [typeAt_modifyType, if_pos ⟨hcb, hhas⟩]
        exact List.mem_append_right _ (List.mem_singleton_self t)
      · have hin : c ∈ rest := by
          rcases List.mem_cons.mp hc with rfl | hin
          · exact absurd rfl hcb
          · exact hin
        exact hrest.new c hin (by rwa [Has, size_modifyType])

/-- What `define` adds: one type behind all others, linked below its bases. -/
structure Defined (h h' : Heap) : Prop where
  size : h'.types.size = h.types.size + 1
  functions : h'.functions = h.functions
  layouts : h'.layouts = h.layouts
  versions : h'.versions = h.versions + 1
  old : ∀ t, h.Has t → ∃ subtypes, h'.typeAt t = { h.typeAt t with subtypes }
  subtypes : ∀ t, h.Has t → ∀ x ∈ (h.typeAt t).subtypes, x ∈ (h'.typeAt t).subtypes
  version : (h'.typeAt ⟨h.types.size⟩).version = versionTag h.versions
  bases : ∀ b ∈ (h'.typeAt ⟨h.types.size⟩).bases,
    h.Has b ∧ (⟨h.types.size⟩ : TypeRef) ∈ (h'.typeAt b).subtypes
  ancestors : ∀ x ∈ (h'.typeAt ⟨h.types.size⟩).ancestors,
    ∃ b ∈ (h'.typeAt ⟨h.types.size⟩).bases, x ∈ h.line b
  layout : (h'.typeAt ⟨h.types.size⟩).layout.index < h.layouts.size

theorem addType_defined {g h : Heap} {r : TypeRecord} (htypes : h.types = g.types)
    (hfunctions : h.functions = g.functions) (hlayouts : h.layouts = g.layouts)
    (hversions : h.versions = g.versions + 1) (hversion : r.version = versionTag g.versions)
    (hbases : ∀ b ∈ r.bases, g.Has b)
    (hancestors : ∀ x ∈ r.ancestors, ∃ b ∈ r.bases, x ∈ g.line b)
    (hlayout : r.layout.index < g.layouts.size) : Defined g (h.addType r).2 := by
  have hat : ∀ t, h.typeAt t = g.typeAt t := fun t => by rw [typeAt, typeAt, htypes]
  have link := linked_foldl ⟨h.types.size⟩ r.bases { h with types := h.types.push r }
  have hsize : h.types.size = g.types.size := by rw [htypes]
  have hold : ∀ t, g.Has t → { h with types := h.types.push r }.typeAt t = g.typeAt t := by
    intro t ht
    rw [typeAt_push, if_neg (by rw [hsize]; exact Nat.ne_of_lt ht), hat]
  have hself : { h with types := h.types.push r }.typeAt ⟨g.types.size⟩ = r := by
    rw [typeAt_push, if_pos hsize.symm]
  obtain ⟨subtypes, hnew⟩ := link.type ⟨g.types.size⟩
  rw [hself] at hnew
  refine ⟨?_, ?_, ?_, ?_, ?_, ?_, ?_, ?_, ?_, ?_⟩
  · exact link.size.trans (by simp [hsize])
  · exact (congrArg Heap.functions link.rest).trans hfunctions
  · exact (congrArg Heap.layouts link.rest).trans hlayouts
  · exact (congrArg Heap.versions link.rest).trans hversions
  · intro t ht
    obtain ⟨subtypes, heq⟩ := link.type t
    rw [hold t ht] at heq
    exact ⟨subtypes, heq⟩
  · intro t ht x hx
    apply link.old t x
    rwa [hold t ht]
  · exact (congrArg TypeRecord.version hnew).trans hversion
  · intro b hb
    have hb : b ∈ r.bases := by rwa [← congrArg TypeRecord.bases hnew]
    have hin : { h with types := h.types.push r }.Has b := by
      have : b.index < g.types.size := hbases b hb
      simp only [Has, Array.size_push]
      omega
    refine ⟨hbases b hb, ?_⟩
    rw [← hsize]
    exact link.new b hb hin
  · intro x hx
    have hx : x ∈ r.ancestors := by rwa [← congrArg TypeRecord.ancestors hnew]
    obtain ⟨b, hb, hxb⟩ := hancestors x hx
    exact ⟨b, (congrArg TypeRecord.bases hnew).symm ▸ hb, hxb⟩
  · exact (congrArg (·.layout.index) hnew).trans_lt hlayout

theorem define_defined {h h' : Heap} (hh : h.Hierarchy) {c : ClassSpec} {t : TypeRef}
    (hbases : ∀ b ∈ c.bases, h.Has b) (hlayout : ∀ l ∈ c.layout, l.index < h.layouts.size)
    (done : h.define c = .ok (t, h')) : Defined h h' := by
  unfold define at done
  have hall : ∀ b ∈ (if c.bases.isEmpty then [TypeRef.object] else c.bases), h.Has b := by
    intro b hb
    split at hb
    · rw [List.mem_singleton.mp hb]
      exact hh.root
    · exact hbases b hb
  generalize (if c.bases.isEmpty then [TypeRef.object] else c.bases) = bases at hall done
  have hfirst : h.Has (bases.headD .object) := by
    cases bases with
    | nil => exact hh.root
    | cons b rest => exact hall b List.mem_cons_self
  cases hl : h.linearize bases with
  | error e => simp [hl, bind, Except.bind] at done
  | ok ancestors =>
    cases hm : h.resolveMetaclass c.metaclass bases with
    | error e => simp [hl, hm, bind, Except.bind] at done
    | ok metaclass =>
      simp only [hl, hm, bind, Except.bind, pure, Except.pure, Except.ok.injEq] at done
      obtain rfl := congrArg Prod.snd done
      refine addType_defined (g := h) rfl rfl rfl rfl rfl hall ?_ ?_
      · intro x hx
        obtain ⟨b, hb, hxb⟩ := (mem_iff_of_keeps (keeps_of_linearize hl) x).mp hx
        exact ⟨b, hb, mem_line.mpr hxb⟩
      · change (c.layout.getD _).index < _
        cases hcl : c.layout with
        | none => exact hh.layout _ hfirst
        | some l => exact hlayout l hcl

theorem Defined.has_iff {h h' : Heap} (d : Defined h h') (t : TypeRef) :
    h'.Has t ↔ h.Has t ∨ t = ⟨h.types.size⟩ := by
  obtain ⟨i⟩ := t
  simp only [Has, d.size, TypeRef.mk.injEq]
  omega

theorem Defined.line {h h' : Heap} (d : Defined h h') {t : TypeRef} (ht : h.Has t) :
    h'.line t = h.line t := by
  obtain ⟨_, heq⟩ := d.old t ht
  rw [Heap.line, Heap.line, heq]

theorem Defined.grows {h h' : Heap} (d : Defined h h') : Grows h h' := by
  refine ⟨by rw [d.size]; exact Nat.le_succ _, ?_, d.functions, by rw [d.layouts], ?_,
    by rw [d.versions]; exact Nat.le_succ _⟩
  · intro t ht
    obtain ⟨subtypes, heq⟩ := d.old t ht
    exact ⟨_, _, subtypes, heq⟩
  · intro l _
    rw [layoutAt, layoutAt, d.layouts]

theorem Defined.hierarchy {h h' : Heap} (d : Defined h h') (hh : h.Hierarchy) : h'.Hierarchy := by
  refine ⟨(d.has_iff _).mpr (Or.inl hh.root), ?_, ?_, ?_, ?_, ?_, ?_⟩
  · obtain ⟨_, heq⟩ := d.old .object hh.root
    rw [heq]
    exact hh.system
  · intro t ht b hb
    rcases (d.has_iff t).mp ht with hold | rfl
    · obtain ⟨_, heq⟩ := d.old t hold
      rw [heq] at hb
      exact hh.bases t hold b hb
    · exact (d.bases b hb).1
  · intro t ht x hx
    rcases (d.has_iff t).mp ht with hold | rfl
    · obtain ⟨_, heq⟩ := d.old t hold
      rw [heq] at hx ⊢
      obtain ⟨b, hb, hxb⟩ := hh.ancestors t hold x hx
      exact ⟨b, hb, by rwa [d.line ((hh.bases t hold b hb).trans hold)]⟩
    · obtain ⟨b, hb, hxb⟩ := d.ancestors x hx
      exact ⟨b, hb, by rwa [d.line (d.bases b hb).1]⟩
  · intro t ht b hb
    rcases (d.has_iff t).mp ht with hold | rfl
    · obtain ⟨_, heq⟩ := d.old t hold
      rw [heq] at hb
      exact d.subtypes b ((hh.bases t hold b hb).trans hold) t (hh.subtypes t hold b hb)
    · exact (d.bases b hb).2
  · intro t ht
    rw [d.layouts]
    rcases (d.has_iff t).mp ht with hold | rfl
    · obtain ⟨_, heq⟩ := d.old t hold
      rw [heq]
      exact hh.layout t hold
    · exact d.layout
  · intro l hl
    rw [d.layouts] at hl
    rw [layoutAt, d.layouts]
    exact hh.number l hl

theorem Defined.wellFormed {h h' : Heap} (d : Defined h h') (hw : h.WellFormed)
    (fits : h'.versions < 2 ^ 64) : h'.WellFormed := by
  rw [d.versions] at fits
  have hold : ∀ t, h.Has t → (h'.typeAt t).version = (h.typeAt t).version := by
    intro t ht
    obtain ⟨_, heq⟩ := d.old t ht
    rw [heq]
  have hnew : (h'.typeAt ⟨h.types.size⟩).version.toNat = h.versions + 1 := by
    rw [d.version, toNat_versionTag fits]
  refine ⟨d.hierarchy hw.toHierarchy, ?_, ?_, ?_⟩
  · intro t ht
    rcases (d.has_iff t).mp ht with ht | rfl
    · rw [hold t ht]
      exact hw.version_pos t ht
    · rw [hnew]
      exact Nat.succ_pos _
  · intro t ht
    rw [d.versions]
    rcases (d.has_iff t).mp ht with ht | rfl
    · rw [hold t ht]
      exact Nat.le_succ_of_le (hw.version_le t ht)
    · exact hnew.le
  · intro t u ht hu heq
    have hnat := congrArg UInt64.toNat heq
    rcases (d.has_iff t).mp ht with ht | rfl <;> rcases (d.has_iff u).mp hu with hu | rfl
    · rw [hold t ht, hold u hu] at heq
      exact hw.version_inj t u ht hu heq
    · have := hw.version_le t ht
      rw [hnew, hold t ht] at hnat
      omega
    · have := hw.version_le u hu
      rw [hnew, hold u hu] at hnat
      omega
    · rfl

theorem Defined.tracks {h h' : Heap} (d : Defined h h') (hh : h.Hierarchy)
    (fits : h'.versions < 2 ^ 64) : Tracks h h' := by
  intro t ht
  rcases (d.has_iff t).mp ht with hold | rfl
  · refine Or.inl ⟨hold, ?_, lookup_congr (d.line hold) fun x hx => ?_⟩
    · obtain ⟨_, heq⟩ := d.old t hold
      rw [heq]
    · obtain ⟨_, heq⟩ := d.old x (hh.has_of_mem_line hold hx)
      rw [heq]
  · rw [d.versions] at fits
    rw [d.version, toNat_versionTag fits]
    exact Or.inr (Nat.lt_succ_self _)

/-! ## Adding a layout -/

theorem addLayout_grows (h : Heap) (name : String) (ctors : List NativeCtor) :
    Grows h (h.addLayout name ctors).2 := by
  refine ⟨Nat.le_refl _, fun _ _ => ⟨_, _, _, rfl⟩, rfl, ?_, ?_, Nat.le_refl _⟩
  · simp [addLayout]
  · intro l hl
    simp only [addLayout, layoutAt, Array.getD_eq_getD_getElem?, Array.getElem?_push_lt hl,
      Array.getElem?_eq_getElem hl]

theorem addLayout_hierarchy {h : Heap} (hh : h.Hierarchy) (name : String)
    (ctors : List NativeCtor) : (h.addLayout name ctors).2.Hierarchy := by
  have g := addLayout_grows h name ctors
  have hsize : (h.addLayout name ctors).2.layouts.size = h.layouts.size + 1 := by simp [addLayout]
  refine ⟨hh.root, hh.system, hh.bases, hh.ancestors, hh.subtypes, ?_, ?_⟩
  · intro t ht
    exact (hh.layout t ht).trans_le g.layouts
  · intro l hl
    rw [hsize] at hl
    by_cases hold : l.index < h.layouts.size
    · rw [g.layoutAt l hold]
      exact hh.number l hold
    · -- the layout of `object` stands in front of it
      have hpos : 0 < h.layouts.size := (Nat.zero_le _).trans_lt (hh.layout .object hh.root)
      obtain ⟨i⟩ := l
      simp only at hl hold
      obtain rfl : i = h.layouts.size := by omega
      obtain ⟨n, hn⟩ := Nat.exists_eq_succ_of_ne_zero hpos.ne'
      have hid : (h.addLayout name ctors).2.layoutAt ⟨h.layouts.size⟩ =
          ⟨⟨LayoutId.firstAdded + UInt32.ofNat (h.layouts.size - 1)⟩, name, ctors⟩ := by
        simp [addLayout, layoutAt]
      rw [hid, hn]
      rfl

/-! ## Any change -/

theorem deleteAttr_eq (h : Heap) (t : TypeRef) (name : String) :
    (h.deleteAttr t name).2 = h ∨
      (h.deleteAttr t name).2 = (h.editAttrs t (·.erase name)).invalidate t := by
  unfold deleteAttr
  split
  · exact Or.inl rfl
  · exact Or.inr rfl

theorem editAttrs_invalidate_edits (h : Heap) (t : TypeRef)
    (f : Table String Value → Table String Value) : Edits h ((h.editAttrs t f).invalidate t) :=
  (editAttrs_edits h t f).trans (draws_refresh _ _ _).edits

theorem aside_edits {h h' : Heap} (types : h'.types = h.types)
    (functions : h'.functions = h.functions) (layouts : h'.layouts = h.layouts)
    (versions : h'.versions = h.versions) : Edits h h' := by
  refine ⟨by rw [types], fun t => ?_, functions, layouts, versions.ge⟩
  rw [typeAt, types]
  exact ⟨_, _, rfl⟩

theorem Change.grows {h h' : Heap} (c : Change h h') (hh : h.Hierarchy) : Grows h h' := by
  cases c with
  | define bases layout done => exact (define_defined hh bases layout done).grows
  | setAttr t name v => exact (editAttrs_invalidate_edits h t (·.insert name v)).grows
  | deleteAttr t name =>
    rcases deleteAttr_eq h t name with heq | heq <;> rw [heq]
    · exact .refl h
    · exact (editAttrs_invalidate_edits h t _).grows
  | invalidate t => exact (draws_refresh _ h t).edits.grows
  | addLayout name ctors => exact addLayout_grows h name ctors
  | aside types functions layouts versions =>
    exact (aside_edits types functions layouts versions).grows

theorem Change.hierarchy {h h' : Heap} (c : Change h h') (hh : h.Hierarchy) : h'.Hierarchy := by
  cases c with
  | define bases layout done => exact (define_defined hh bases layout done).hierarchy hh
  | setAttr t name v => exact (editAttrs_invalidate_edits h t (·.insert name v)).hierarchy hh
  | deleteAttr t name =>
    rcases deleteAttr_eq h t name with heq | heq <;> rw [heq]
    · exact hh
    · exact (editAttrs_invalidate_edits h t _).hierarchy hh
  | invalidate t => exact (draws_refresh _ h t).edits.hierarchy hh
  | addLayout name ctors => exact addLayout_hierarchy hh name ctors
  | aside types functions layouts versions =>
    exact (aside_edits types functions layouts versions).hierarchy hh

theorem editAttrs_invalidate_wellFormed {h : Heap} (hw : h.WellFormed) (t : TypeRef)
    (f : Table String Value → Table String Value)
    (fits : ((h.editAttrs t f).invalidate t).versions < 2 ^ 64) :
    ((h.editAttrs t f).invalidate t).WellFormed :=
  (draws_refresh _ _ _).wellFormed (hw.editAttrs t f) fits

theorem Change.wellFormed {h h' : Heap} (c : Change h h') (hw : h.WellFormed)
    (fits : h'.versions < 2 ^ 64) : h'.WellFormed := by
  cases c with
  | define bases layout done =>
    exact (define_defined hw.toHierarchy bases layout done).wellFormed hw fits
  | setAttr t name v => exact editAttrs_invalidate_wellFormed hw t (·.insert name v) fits
  | deleteAttr t name =>
    rcases deleteAttr_eq h t name with heq | heq <;> rw [heq] at fits ⊢
    · exact hw
    · exact editAttrs_invalidate_wellFormed hw t _ fits
  | invalidate t => exact (draws_refresh _ h t).wellFormed hw fits
  | addLayout name ctors =>
    exact ⟨addLayout_hierarchy hw.toHierarchy name ctors, hw.version_pos, hw.version_le,
      hw.version_inj⟩
  | aside types functions layouts versions =>
    refine ⟨(aside_edits types functions layouts versions).hierarchy hw.toHierarchy, ?_, ?_, ?_⟩
    · simpa only [Has, typeAt, types] using hw.version_pos
    · simpa only [Has, typeAt, types, versions] using hw.version_le
    · simpa only [Has, typeAt, types] using hw.version_inj

theorem Change.tracks {h h' : Heap} (c : Change h h') (hw : h.WellFormed)
    (fits : h'.versions < 2 ^ 64) : Tracks h h' := by
  cases c with
  | define bases layout done =>
    exact (define_defined hw.toHierarchy bases layout done).tracks hw.toHierarchy fits
  | setAttr t name v => exact editAttrs_tracks hw t (·.insert name v) fits
  | deleteAttr t name =>
    rcases deleteAttr_eq h t name with heq | heq <;> rw [heq] at fits ⊢
    · exact .refl h
    · exact editAttrs_tracks hw t _ fits
  | invalidate t => exact (draws_refresh _ h t).tracks fits
  | addLayout name ctors => exact fun t ht => Or.inl ⟨ht, rfl, fun _ => rfl⟩
  | aside types functions layouts versions =>
    intro t ht
    have hat : ∀ u, h'.typeAt u = h.typeAt u := fun u => by rw [typeAt, typeAt, types]
    rw [Has, types] at ht
    refine Or.inl ⟨ht, by rw [hat], lookup_congr ?_ fun x _ => by rw [hat]⟩
    rw [Heap.line, Heap.line, hat]

end InlineCache.Heap
