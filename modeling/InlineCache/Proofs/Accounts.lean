import InlineCache.Proofs.Requests

/-! # What a request leaves behind

A request puts at most one shortcut on one shelf, looks for the allocator of that shelf at most
once, and counts both. -/

namespace InlineCache.Caches

variable {c c₁ c₂ c₃ : Caches} {h : Heap} {s p : SpecializerRef} {l : LayoutId}
  {f : Specializer → Specializer}

theorem Prepares.get? {c c' : Caches} (p : Prepares c c') (s : SpecializerRef) (l : LayoutId)
    (key : ShortcutKey) :
    (c'.shelf s l).shortcuts.get? key = (c.shelf s l).shortcuts.get? key := by
  rw [p.filed]

theorem Prepares.shortcutAt {c c' : Caches} (p : Prepares c c') (k : ShortcutRef) :
    c'.shortcutAt k = c.shortcutAt k := by
  rw [Caches.shortcutAt, Caches.shortcutAt, p.shortcuts]

def counters (c : Caches) (s : SpecializerRef) : Counters := (c.specializerAt s).counters

theorem counters_record (c : Caches) (s p : SpecializerRef) (n : Counter) :
    (c.count s n).counters p =
      if s = p ∧ c.HasSpecializer p then (c.counters p).record n else c.counters p := by
  unfold counters count
  rw [specializerAt_modifySpecializer]
  split <;> rfl

theorem counters_modifyShelf (c : Caches) (s p : SpecializerRef) (l : LayoutId)
    (f : Shelf → Shelf) : (c.modifyShelf s l f).counters p = c.counters p := by
  unfold counters modifyShelf
  rw [specializerAt_modifySpecializer]
  split <;> rfl

theorem shelf_count (c : Caches) (s p : SpecializerRef) (l : LayoutId) (n : Counter) :
    (c.count s n).shelf p l = c.shelf p l := by
  unfold shelf count
  rw [specializerAt_modifySpecializer]
  split <;> rfl

theorem hasSpecializer_modify :
    (c.modifySpecializer s f).HasSpecializer p ↔ c.HasSpecializer p := by
  unfold HasSpecializer modifySpecializer
  simp

theorem shelf_modifyShelf (c : Caches) (s p : SpecializerRef) (l l' : LayoutId)
    (f : Shelf → Shelf) : (c.modifyShelf s l f).shelf p l' =
      if (s = p ∧ l = l') ∧ c.HasSpecializer p then f (c.shelf p l') else c.shelf p l' := by
  unfold shelf modifyShelf
  rw [specializerAt_modifySpecializer]
  by_cases hs : s = p ∧ c.HasSpecializer p
  · rw [if_pos hs]
    change Specializer.shelf _ l' = _
    rw [Specializer.shelf_insert]
    by_cases hl : l = l'
    · subst hl
      simp [hs]
    · simp [hl, Specializer.shelf]
  · rw [if_neg hs, if_neg fun both => hs ⟨both.1.1, both.2⟩]

theorem get?_file (c : Caches) {s : SpecializerRef} (has : c.HasSpecializer s) (p : SpecializerRef)
    (l l' : LayoutId) (key key' : ShortcutKey) (k : Shortcut) :
    ((c.file s l key k).2.shelf p l').shortcuts.get? key' =
      if s = p ∧ l = l' ∧ key = key' then some ⟨c.shortcuts.size⟩
      else (c.shelf p l').shortcuts.get? key' := by
  have hfile : (c.file s l key k).2.shelf p l' = _ :=
    shelf_modifyShelf (c.addShortcut k).2 s p l l' fun q =>
      { q with shortcuts := q.shortcuts.insert key ⟨c.shortcuts.size⟩ }
  rw [hfile]
  by_cases hplace : s = p ∧ l = l'
  · obtain ⟨rfl, rfl⟩ := hplace
    have has' : (c.addShortcut k).2.HasSpecializer s := has
    simp only [has', and_self, if_true, true_and]
    exact Table.get?_insert _ _ _ _
  · rw [if_neg fun all => hplace all.1, if_neg fun all => hplace ⟨all.1, all.2.1⟩]
    rfl

theorem shortcutAt_file (c : Caches) (s : SpecializerRef) (l : LayoutId) (key : ShortcutKey)
    (k : Shortcut) (p : ShortcutRef) : (c.file s l key k).2.shortcutAt p =
      if p = ⟨c.shortcuts.size⟩ then k else c.shortcutAt p := by
  cases p
  simp only [ShortcutRef.mk.injEq]
  exact shortcutAt_addShortcut c k _

theorem hasShortcut_file (c : Caches) (s : SpecializerRef) (l : LayoutId) (key : ShortcutKey)
    (k : Shortcut) (p : ShortcutRef) : (c.file s l key k).2.HasShortcut p ↔
      p = ⟨c.shortcuts.size⟩ ∨ c.HasShortcut p := by
  cases p
  change _ < (c.shortcuts.push k).size ↔ _
  simp only [HasShortcut, Array.size_push, ShortcutRef.mk.injEq]
  omega

def final {ε α : Type} (r : EStateM.Result ε Caches α) : Caches :=
  match r with
  | .ok _ c => c
  | .error _ c => c

@[simp] theorem final_ok {ε α : Type} (a : α) (c : Caches) :
    final (.ok a c : EStateM.Result ε Caches α) = c := rfl

@[simp] theorem final_error {ε α : Type} (e : ε) (c : Caches) :
    final (.error e c : EStateM.Result ε Caches α) = c := rfl

/-! ## Looking for an allocator -/

/-- The allocator of no other shelf changes. That of the shelf is looked for if it was not yet, and
counted if there is one. -/
structure LooksOnce (s : SpecializerRef) (l : LayoutId) (c c' : Caches) : Prop where
  other : ∀ p l', p ≠ s ∨ l' ≠ l → (c'.shelf p l').allocator = (c.shelf p l').allocator
  own : ((c'.shelf s l).allocator = (c.shelf s l).allocator ∧
      (c'.counters s).allocatorBuilds = (c.counters s).allocatorBuilds) ∨
    (c.shelf s l).allocator = none ∧ ∃ found, (c'.shelf s l).allocator = some found ∧
      (c'.counters s).allocatorBuilds =
        (c.counters s).allocatorBuilds + if found.isSome then 1 else 0

theorem LooksOnce.refl (s : SpecializerRef) (l : LayoutId) (c : Caches) : LooksOnce s l c c :=
  ⟨fun _ _ _ => rfl, Or.inl ⟨rfl, rfl⟩⟩

theorem LooksOnce.trans (a : LooksOnce s l c₁ c₂) (b : LooksOnce s l c₂ c₃) :
    LooksOnce s l c₁ c₃ := by
  refine ⟨fun p l' hne => (b.other p l' hne).trans (a.other p l' hne), ?_⟩
  rcases a.own with ⟨same, count⟩ | ⟨unknown, found, known, count⟩
  · rw [← same, ← count]
    exact b.own
  · rcases b.own with ⟨same', count'⟩ | ⟨unknown', -⟩
    · exact Or.inr ⟨unknown, found, same'.trans known, count'.trans count⟩
    · rw [known] at unknown'
      simp at unknown'

theorem LooksOnce.known {c c' : Caches} (looks : LooksOnce s l c c') {p : SpecializerRef}
    {l' : LayoutId} {a : Option LayoutRef} (known : (c.shelf p l').allocator = some a) :
    (c'.shelf p l').allocator = some a := by
  by_cases hother : p ≠ s ∨ l' ≠ l
  · rw [looks.other p l' hother, known]
  · obtain ⟨rfl, rfl⟩ : p = s ∧ l' = l := by simpa using hother
    rcases looks.own with ⟨same, -⟩ | ⟨unknown, -⟩
    · rw [same, known]
    · rw [known] at unknown
      simp at unknown

theorem modifySpecializer_looks (hallocator : ∀ p l, ((f p).shelf l).allocator =
      (p.shelf l).allocator)
    (hbuilds : ∀ p, (f p).counters.allocatorBuilds = p.counters.allocatorBuilds) :
    LooksOnce s l c (c.modifySpecializer p f) := by
  have kept : ∀ q l', ((c.modifySpecializer p f).shelf q l').allocator =
      (c.shelf q l').allocator := by
    intro q l'
    unfold shelf
    rw [specializerAt_modifySpecializer]
    split
    · exact hallocator _ l'
    · rfl
  refine ⟨fun q l' _ => kept q l', Or.inl ⟨kept s l, ?_⟩⟩
  unfold counters
  rw [specializerAt_modifySpecializer]
  split
  · exact hbuilds _
  · rfl

/-! ## Before a build is counted -/

/-- Neither a build nor a reuse is counted. -/
structure Works (s : SpecializerRef) (l : LayoutId) (c c' : Caches) : Prop where
  looks : LooksOnce s l c c'
  size : c'.specializers.size = c.specializers.size
  builds : (c'.counters s).siteBuilds = (c.counters s).siteBuilds
  reuses : (c'.counters s).cacheReuses = (c.counters s).cacheReuses

theorem Works.refl (s : SpecializerRef) (l : LayoutId) (c : Caches) : Works s l c c :=
  ⟨.refl s l c, rfl, rfl, rfl⟩

theorem Works.has (works : Works s l c₁ c₂) (has : c₁.HasSpecializer p) : c₂.HasSpecializer p :=
  has.trans_eq works.size.symm

theorem Works.trans (a : Works s l c₁ c₂) (b : Works s l c₂ c₃) : Works s l c₁ c₃ :=
  ⟨a.looks.trans b.looks, b.size.trans a.size, b.builds.trans a.builds,
    b.reuses.trans a.reuses⟩

theorem modifySpecializer_works (hallocator : ∀ p l, ((f p).shelf l).allocator =
      (p.shelf l).allocator) (hcounters : ∀ p, ∃ a i, (f p).counters =
        { p.counters with adapterBuilds := a, ineligible := i }) :
    Works s l c (c.modifySpecializer p f) := by
  have kept : ∃ a i, (c.modifySpecializer p f).counters s =
      { c.counters s with adapterBuilds := a, ineligible := i } := by
    unfold counters
    rw [specializerAt_modifySpecializer]
    split
    · exact hcounters _
    · exact ⟨_, _, rfl⟩
  obtain ⟨a, i, heq⟩ := kept
  refine ⟨modifySpecializer_looks hallocator fun p => ?_, Array.size_modify, by rw [heq],
    by rw [heq]⟩
  obtain ⟨a, i, heq⟩ := hcounters p
  rw [heq]

theorem count_looks (c : Caches) (p : SpecializerRef) {n : Counter} (hn : n ≠ .allocatorBuilds) :
    LooksOnce s l c (c.count p n) := by
  apply modifySpecializer_looks
  · exact fun _ _ => rfl
  · intro p
    cases n <;> first | rfl | exact absurd rfl hn

theorem count_works (c : Caches) (p : SpecializerRef) {n : Counter}
    (hn : n = .adapterBuilds ∨ n = .ineligible) : Works s l c (c.count p n) := by
  apply modifySpecializer_works
  · exact fun _ _ => rfl
  · rcases hn with rfl | rfl <;> exact fun _ => ⟨_, _, rfl⟩

theorem openShelf_works (c : Caches) (p : SpecializerRef) (l' : LayoutId) :
    Works s l c (c.openShelf p l') := by
  apply modifySpecializer_works
  · intro p l
    rw [shelf_open]
  · intro p
    split <;> exact ⟨_, _, rfl⟩

theorem modifyShelf_works (c : Caches) (p : SpecializerRef) (l' : LayoutId) {f : Shelf → Shelf}
    (hf : ∀ q : Shelf, (f q).allocator = q.allocator) : Works s l c (c.modifyShelf p l' f) := by
  apply modifySpecializer_works
  · intro p l
    rw [Specializer.shelf_insert]
    split
    · rename_i heq
      subst heq
      exact hf _
    · rfl
  · exact fun _ => ⟨_, _, rfl⟩

theorem file_works (c : Caches) (s : SpecializerRef) (l : LayoutId) (key : ShortcutKey)
    (k : Shortcut) : Works s l c (c.file s l key k).2 := by
  have added : Works s l c (c.addShortcut k).2 :=
    ⟨⟨fun _ _ _ => rfl, Or.inl ⟨rfl, rfl⟩⟩, rfl, rfl, rfl⟩
  have filed : Works s l (c.addShortcut k).2 (c.file s l key k).2 :=
    modifyShelf_works _ s l (f := fun p => { p with
      shortcuts := p.shortcuts.insert key ⟨c.shortcuts.size⟩ }) fun _ => rfl
  exact added.trans filed

theorem sweep_works (c : Caches) (p : SpecializerRef) (extra : List RelayRef) :
    Works s l c (c.sweep p extra) := by
  unfold sweep
  dsimp only
  split
  · exact .refl s l c
  · exact modifySpecializer_works (fun _ _ => rfl) fun _ => ⟨_, _, rfl⟩

theorem relayFor_works (c : Caches) (p : SpecializerRef) (g : FunctionRef) (shape : SiteShape)
    (extra : List RelayRef) : Works s l c (c.relayFor p g shape extra).2 := by
  unfold relayFor
  dsimp only
  split
  · exact .refl s l c
  · let c₁ := (c.addRelay { callable := .function g, shape }).2
    let c₂ := c₁.count p .adapterBuilds
    let c₃ := c₂.modifySpecializer p fun q =>
      { q with relays := q.relays.insert ⟨g, shape.signature⟩ ⟨c.relays.size⟩ }
    have added : Works s l c c₁ := ⟨⟨fun _ _ _ => rfl, Or.inl ⟨rfl, rfl⟩⟩, rfl, rfl, rfl⟩
    have counted : Works s l c₁ c₂ := count_works c₁ p (Or.inl rfl)
    have remembered : Works s l c₂ c₃ :=
      modifySpecializer_works (fun _ _ => rfl) fun _ => ⟨_, _, rfl⟩
    exact ((added.trans counted).trans remembered).trans (sweep_works c₃ p _)

theorem allocatorFor_works (has : c.HasSpecializer s) (h : Heap) (l : LayoutRef) :
    Works s (h.layoutAt l).id c (c.allocatorFor h s l).2 := by
  unfold allocatorFor
  dsimp only
  cases hk : (c.shelf s (h.layoutAt l).id).allocator with
  | some known => exact .refl s _ c
  | none =>
    generalize Specializer.directAllocator h l = found
    have shelf_same : ∀ p l', (if found.isSome then c.count s .allocatorBuilds else c).shelf p l' =
        c.shelf p l' := by
      intro p l'
      split
      · exact shelf_count c s p l' _
      · rfl
    have has' : (if found.isSome then c.count s .allocatorBuilds else c).HasSpecializer s := by
      split
      · exact hasSpecializer_modify.mpr has
      · exact has
    have counted : (if found.isSome then c.count s .allocatorBuilds else c).counters s =
        if found.isSome then (c.counters s).record .allocatorBuilds else c.counters s := by
      split
      · rw [counters_record, if_pos ⟨rfl, has⟩]
      · rfl
    refine ⟨⟨?_, Or.inr ⟨hk, found, ?_, ?_⟩⟩, ?_, ?_, ?_⟩
    · intro p l' hne
      rw [shelf_modifyShelf, if_neg, shelf_same]
      rintro ⟨⟨rfl, rfl⟩, -⟩
      simp at hne
    · rw [shelf_modifyShelf, if_pos ⟨⟨rfl, rfl⟩, has'⟩]
    · rw [counters_modifyShelf, counted]
      cases found <;> simp [Counters.record]
    · refine Array.size_modify.trans ?_
      split
      · exact Array.size_modify
      · rfl
    · rw [counters_modifyShelf, counted]
      cases found <;> simp [Counters.record]
    · rw [counters_modifyShelf, counted]
      cases found <;> simp [Counters.record]

theorem initializerFor_works (h : Heap) (p : SpecializerRef) (shape : SiteShape) (t : TypeRef)
    (c : Caches) : Works s l c (final (initializerFor h p shape t c)) := by
  rw [initializerFor_eq]
  cases h.initializer? shape.signature t with
  | error reason => exact .refl s l c
  | ok g? =>
    cases g? with
    | none => exact .refl s l c
    | some g => exact relayFor_works c p g shape.withReceiver []

theorem allocationFor_works (has : c.HasSpecializer s) (h : Heap) (shape : SiteShape)
    (t : TypeRef) (i : Option RelayRef) :
    Works s (h.layoutOf t).id c (final (allocationFor h s shape t i c)) := by
  rw [allocationFor_eq]
  cases h.slot t .new with
  | standard =>
    have works := allocatorFor_works has h (h.typeAt t).layout
    cases ha : c.allocatorFor h s (h.typeAt t).layout with
    | mk l? c' =>
      rw [ha] at works
      cases l? <;> exact works
  | user v =>
    cases v with
    | staticMethod box inner =>
      cases inner with
      | function g => exact relayFor_works c s g shape.withReceiver i.toList
      | _ => exact .refl s _ c
    | _ => exact .refl s _ c
  | notFound => exact .refl s _ c
  | unsupported v => exact .refl s _ c

theorem build_works (has : c.HasSpecializer s) (h : Heap) (shape : SiteShape) (t : TypeRef) :
    (∃ k c', build h s shape t c = .ok k (c'.count s .siteBuilds) ∧
      Works s (h.layoutOf t).id c c' ∧ k.version = (h.typeAt t).version) ∨
    ∃ o c', build h s shape t c = .error o c' ∧ Works s (h.layoutOf t).id c c' := by
  rw [build_eq]
  cases Arity.ofNat shape.signature.arity with
  | error e => exact Or.inr ⟨_, c, rfl, .refl s _ c⟩
  | ok arity =>
    have first : Works s (h.layoutOf t).id c _ := initializerFor_works h s shape t c
    cases hi : initializerFor h s shape t c with
    | error o c₁ =>
      rw [hi] at first
      exact Or.inr ⟨_, c₁, rfl, first⟩
    | ok i c₁ =>
      rw [hi, final_ok] at first
      have second := allocationFor_works (first.has has) h shape t i
      dsimp only
      cases ha : allocationFor h s shape t i c₁ with
      | error o c₂ =>
        rw [ha] at second
        exact Or.inr ⟨_, c₂, rfl, first.trans second⟩
      | ok a c₂ =>
        rw [ha] at second
        exact Or.inl ⟨_, c₂, rfl, first.trans second, rfl⟩

/-! ## Requests -/

/-- How a request can end, and what it leaves behind. -/
inductive Served (c : Caches) (h : Heap) (s : SpecializerRef) (shape : SiteShape) (t : TypeRef) :
    EStateM.Result BindError Caches (Except Refusal ShortcutRef) → Prop
  | refused {reason : Refusal} {c' : Caches} (prepares : Prepares c c')
      (works : Works s (h.layoutOf t).id c c') : Served c h s shape t (.ok (.error reason) c')
  | failed {e : BindError} {c' : Caches} (prepares : Prepares c c')
      (works : Works s (h.layoutOf t).id c c') : Served c h s shape t (.error e c')
  | reused {k : ShortcutRef} {c' : Caches} (prepares : Prepares c c')
      (works : Works s (h.layoutOf t).id c c')
      (filed : (c.shelf s (h.layoutOf t).id).shortcuts.get? ⟨(h.typeAt t).id, shape.signature⟩ =
        some k)
      (current : (c.shortcutAt k).version = (h.typeAt t).version) :
      Served c h s shape t (.ok (.ok k) (c'.count s .cacheReuses))
  | built {k : Shortcut} {c' : Caches} (prepares : Prepares c (c'.count s .siteBuilds))
      (works : Works s (h.layoutOf t).id c c') (version : k.version = (h.typeAt t).version)
      (stale : ∀ k', (c.shelf s (h.layoutOf t).id).shortcuts.get?
        ⟨(h.typeAt t).id, shape.signature⟩ = some k' →
          (c.shortcutAt k').version ≠ (h.typeAt t).version) :
      Served c h s shape t (.ok (.ok ⟨c.shortcuts.size⟩)
        ((c'.count s .siteBuilds).file s (h.layoutOf t).id ⟨(h.typeAt t).id, shape.signature⟩ k).2)

theorem request_served (hc : Sound c h) (hh : h.Hierarchy) (has : c.HasSpecializer s)
    (shape : SiteShape) (t : TypeRef) : Served c h s shape t (request h s shape t c) := by
  unfold request
  cases gate (c.settings s) h shape t with
  | some reason => exact .refused (count_prepares c s _) (count_works c s (Or.inr rfl))
  | none =>
    have hp₁ := openShelf_prepares c s (h.layoutOf t).id
    have hw₁ : Works s (h.layoutOf t).id c _ := openShelf_works c s (h.layoutOf t).id
    dsimp only
    cases hk : (c.openShelf s (h.layoutOf t).id).current? s (h.layoutOf t).id
        ⟨(h.typeAt t).id, shape.signature⟩ (h.typeAt t).version with
    | some k =>
      obtain ⟨hfiled, hcurrent⟩ := Option.filter_eq_some_iff.mp hk
      rw [hp₁.filed] at hfiled
      exact .reused hp₁ hw₁ hfiled (of_decide_eq_true hcurrent)
    | none =>
      have stale : ∀ k', (c.shelf s (h.layoutOf t).id).shortcuts.get?
          ⟨(h.typeAt t).id, shape.signature⟩ = some k' →
          (c.shortcutAt k').version ≠ (h.typeAt t).version := by
        intro k' hk' hversion
        rw [← hp₁.filed] at hk'
        unfold current? at hk
        rw [hk', Option.filter_some, if_pos (by exact decide_eq_true hversion)] at hk
        simp at hk
      have spec := build_spec (openShelf_sound hc s (h.layoutOf t).id) hh s shape t
      rcases build_works (hw₁.has has) h shape t with ⟨k, c', hb, hw₂, hversion⟩ | ⟨o, c', hb, hw₂⟩
      · rw [hb] at spec ⊢
        have hp₂ : (c.openShelf s (h.layoutOf t).id).Prepares (c'.count s .siteBuilds) := by
          rcases spec with ⟨k', c'', heq, hp, -⟩ | ⟨o, c'', heq, -⟩
          · cases heq
            exact hp
          · simp at heq
        have hsize : c'.shortcuts.size = c.shortcuts.size :=
          congrArg Array.size (hp₁.trans hp₂).shortcuts
        have built := Served.built (hp₁.trans hp₂) (hw₁.trans hw₂) hversion stale
        rwa [← hsize] at built
      · rw [hb] at spec ⊢
        have hp₂ : (c.openShelf s (h.layoutOf t).id).Prepares c' := by
          rcases spec with ⟨k', c'', heq, -⟩ | ⟨o, c'', heq, hp, -⟩
          · simp at heq
          · cases heq
            exact hp
        cases o with
        | refusal reason =>
          exact .refused ((hp₁.trans hp₂).trans (count_prepares c' s _))
            ((hw₁.trans hw₂).trans (count_works c' s (Or.inr rfl)))
        | error e => exact .failed (hp₁.trans hp₂) (hw₁.trans hw₂)

theorem Served.looks {r : EStateM.Result BindError Caches (Except Refusal ShortcutRef)}
    {shape : SiteShape} {t : TypeRef} (served : Served c h s shape t r) :
    LooksOnce s (h.layoutOf t).id c (final r) := by
  cases served with
  | refused _ works => exact works.looks
  | failed _ works => exact works.looks
  | @reused k c' _ works _ _ => exact works.looks.trans (count_looks c' s (by simp))
  | @built k c' _ works _ _ =>
    exact (works.looks.trans (count_looks c' s (by simp))).trans (file_works _ s _ _ k).looks

end InlineCache.Caches
