import InlineCache.Proofs.Cached

/-! # What a request answers

A request answers what the recipe says, whatever is cached. -/

namespace InlineCache

namespace Specializer

theorem shelf_insert (p : Specializer) (l l' : LayoutId) (shelf : Shelf) :
    { p with shelves := p.shelves.insert l shelf }.shelf l' =
      if l = l' then shelf else p.shelf l' := by
  unfold Specializer.shelf
  rw [Table.get?_insert]
  split <;> rfl

end Specializer

namespace Caches

variable {c : Caches} {h : Heap}

/-! ## Shelves -/

theorem shelf_open (p : Specializer) (l l' : LayoutId) :
    (if p.shelves.contains l then p else { p with shelves := p.shelves.insert l {} }).shelf l' =
      p.shelf l' := by
  split
  · rfl
  · rename_i hnot
    rw [Specializer.shelf_insert]
    split
    · rename_i heq
      subst heq
      have hnone : p.shelves.get? l = none := by simpa [Table.contains] using hnot
      rw [Specializer.shelf, hnone]
      rfl
    · rfl

theorem openShelf_prepares (c : Caches) (s : SpecializerRef) (l : LayoutId) :
    Prepares c (c.openShelf s l) := by
  apply modifySpecializer_prepares
  · intro p
    split <;> rfl
  · intro p l'
    rw [shelf_open]

theorem openShelf_sound (hc : Sound c h) (s : SpecializerRef) (l : LayoutId) :
    Sound (c.openShelf s l) h := by
  apply modifySpecializer_sound hc
  · intro p key r hr
    left
    split at hr <;> exact hr
  · intro p id known hk
    rw [shelf_open] at hk
    exact Or.inl hk

/-! ## Relays -/

theorem addRelay_prepares (c : Caches) (r : Relay) : Prepares c (c.addRelay r).2 := by
  refine ⟨⟨le_rfl, fun _ _ => rfl, le_rfl, fun _ _ => rfl, le_rfl, fun _ _ => rfl, ?_, ?_⟩, rfl,
    rfl, fun _ _ => rfl⟩
  · simp [addRelay]
  · intro p hp
    rw [relayAt_addRelay, if_neg (Nat.ne_of_lt hp)]
    exact ⟨rfl, rfl⟩

theorem addRelay_sound (hc : Sound c h) {r : Relay} (hcallable : ∀ t, r.callable ≠ .type t)
    (hsite : r.site = none) : Sound (c.addRelay r).2 h := by
  have g := (addRelay_prepares c r).grows
  refine ⟨fun s key r hr => (hc.remembered s key r hr).mono g, hc.allocator, ?_, ?_, hc.plan⟩
  · intro p
    rw [relayAt_addRelay]
    split
    · exact hcallable
    · exact hc.callable p
  · intro p s hs
    rw [relayAt_addRelay] at hs ⊢
    split at hs
    · rw [hsite] at hs
      exact absurd hs (by simp)
    · rename_i hne
      rw [if_neg hne]
      exact hc.site p s hs

theorem sweep_prepares (c : Caches) (s : SpecializerRef) (extra : List RelayRef) :
    Prepares c (c.sweep s extra) := by
  unfold sweep
  dsimp only
  split
  · exact .refl c
  · exact modifySpecializer_prepares (fun _ => rfl) fun _ _ => rfl

theorem sweep_sound (hc : Sound c h) (s : SpecializerRef) (extra : List RelayRef) :
    Sound (c.sweep s extra) h := by
  unfold sweep
  dsimp only
  split
  · exact hc
  · apply modifySpecializer_sound hc
    · intro p key r hr
      exact Or.inr (hc.remembered s key r (Table.get?_of_filterValues hr))
    · exact fun _ _ _ hk => Or.inl hk

theorem relayFor_spec (hc : Sound c h) (s : SpecializerRef) (f : FunctionRef) (sig : Signature)
    (extra : List RelayRef) :
    Prepares c (c.relayFor s f { signature := sig } extra).2 ∧
      Sound (c.relayFor s f { signature := sig } extra).2 h ∧
      (c.relayFor s f { signature := sig } extra).2.RelaysTo
        (c.relayFor s f { signature := sig } extra).1 f sig := by
  unfold relayFor
  dsimp only
  cases hr : ((c.specializerAt s).relays.get? ⟨f, sig⟩).filter (c.isLive extra) with
  | some r =>
    have hr := (Option.filter_eq_some_iff.mp hr).1
    exact ⟨.refl c, hc, hc.remembered s _ r hr⟩
  | none =>
    let relay : Relay := { callable := .function f, shape := { signature := sig } }
    let c₁ := (c.addRelay relay).2
    let c₂ := c₁.count s .adapterBuilds
    let c₃ := c₂.modifySpecializer s fun p =>
      { p with relays := p.relays.insert ⟨f, sig⟩ ⟨c.relays.size⟩ }
    have h₁ : Sound c₁ h := addRelay_sound hc (by simp [relay]) rfl
    have h₂ : Sound c₂ h := count_sound h₁ s .adapterBuilds
    have calls : c₂.RelaysTo ⟨c.relays.size⟩ f sig := by
      have hat : c₂.relayAt ⟨c.relays.size⟩ = relay := by
        change c₁.relayAt ⟨c.relays.size⟩ = relay
        rw [relayAt_addRelay, if_pos rfl]
      refine ⟨?_, by rw [hat], by rw [hat]⟩
      change c.relays.size < (c.relays.push relay).size
      simp
    have p₃ : Prepares c₂ c₃ := modifySpecializer_prepares (fun _ => rfl) fun _ _ => rfl
    have h₃ : Sound c₃ h := by
      apply modifySpecializer_sound h₂
      · intro p key r hr
        change (p.relays.insert _ _).get? key = some r at hr
        rw [Table.get?_insert] at hr
        split at hr
        · rename_i heq
          subst heq
          obtain rfl := Option.some.inj hr
          exact Or.inr calls
        · exact Or.inl hr
      · exact fun _ _ _ hk => Or.inl hk
    have p₄ := sweep_prepares c₃ s (⟨c.relays.size⟩ :: extra)
    refine ⟨?_, sweep_sound h₃ s _, (calls.mono p₃.grows).mono p₄.grows⟩
    exact (((addRelay_prepares c relay).trans (count_prepares c₁ s _)).trans p₃).trans p₄

/-! ## Allocators -/

theorem toNat_layoutNumber {n : Nat} (hn : n + 64 < 2 ^ 32) :
    (Heap.layoutNumber (n + 1)).raw.toNat = n + 64 := by
  change (LayoutId.firstAdded + UInt32.ofNat n).toNat = n + 64
  rw [UInt32.toNat_add, UInt32.toNat_ofNat']
  change (64 + n % 2 ^ 32) % 2 ^ 32 = n + 64
  omega

theorem layoutNumber_inj {i j : Nat} (hi : i + 63 < 2 ^ 32) (hj : j + 63 < 2 ^ 32)
    (heq : Heap.layoutNumber i = Heap.layoutNumber j) : i = j := by
  have heq := congrArg (·.raw.toNat) heq
  have hzero : (Heap.layoutNumber 0).raw.toNat = 8 := rfl
  cases i with
  | zero =>
    cases j with
    | zero => rfl
    | succ j =>
      simp only [hzero, toNat_layoutNumber (show j + 64 < 2 ^ 32 by omega)] at heq
      omega
  | succ i =>
    cases j with
    | zero =>
      simp only [hzero, toNat_layoutNumber (show i + 64 < 2 ^ 32 by omega)] at heq
      omega
    | succ j =>
      simp only [toNat_layoutNumber (show i + 64 < 2 ^ 32 by omega),
        toNat_layoutNumber (show j + 64 < 2 ^ 32 by omega)] at heq
      omega

theorem layout_inj (hh : h.Hierarchy) (fits : h.Fits) {l l' : LayoutRef}
    (hl : l.index < h.layouts.size) (hl' : l'.index < h.layouts.size)
    (heq : (h.layoutAt l).id = (h.layoutAt l').id) : l = l' := by
  rw [hh.number l hl, hh.number l' hl'] at heq
  have := fits.layouts
  have hindex := layoutNumber_inj (by omega) (by omega) heq
  cases l
  cases l'
  rw [LayoutRef.mk.injEq]
  exact hindex

theorem layout_lt (hh : h.Hierarchy) (t : TypeRef) :
    (h.typeAt t).layout.index < h.layouts.size := by
  by_cases ht : h.Has t
  · exact hh.layout t ht
  · rw [Heap.typeAt_of_not_has ht]
    exact (Nat.zero_le _).trans_lt (hh.layout .object hh.root)

theorem modifyShelf_sound (hc : Sound c h) (s : SpecializerRef) (l : LayoutId) (f : Shelf → Shelf)
    (hf : ∀ p : Shelf, ∀ known, (f p).allocator = some known → p.allocator = some known ∨
      ∃ l' : LayoutRef, l'.index < h.layouts.size ∧ (h.layoutAt l').id = l ∧
        known = Specializer.directAllocator h l') : Sound (c.modifyShelf s l f) h := by
  apply modifySpecializer_sound hc
  · exact fun _ _ _ hr => Or.inl hr
  · intro p id known hk
    rw [Specializer.shelf_insert] at hk
    split at hk
    · rename_i heq
      subst heq
      exact hf _ known hk
    · exact Or.inl hk

theorem modifyShelf_prepares (c : Caches) (s : SpecializerRef) (l : LayoutId) (f : Shelf → Shelf)
    (hf : ∀ p : Shelf, (f p).shortcuts = p.shortcuts) : Prepares c (c.modifyShelf s l f) := by
  apply modifySpecializer_prepares
  · exact fun _ => rfl
  · intro p l'
    rw [Specializer.shelf_insert]
    split
    · rename_i heq
      subst heq
      exact hf _
    · rfl

theorem allocatorFor_spec (hc : Sound c h) (hh : h.Hierarchy) (s : SpecializerRef) {l : LayoutRef}
    (hl : l.index < h.layouts.size) :
    Prepares c (c.allocatorFor h s l).2 ∧ Sound (c.allocatorFor h s l).2 h ∧
      (h.Fits → (c.allocatorFor h s l).1 = Specializer.directAllocator h l) := by
  unfold allocatorFor
  dsimp only
  cases hk : (c.shelf s (h.layoutAt l).id).allocator with
  | some known =>
    refine ⟨.refl c, hc, fun fits => ?_⟩
    obtain ⟨l', hl', hid, hknown⟩ := hc.allocator s _ known hk
    rw [hknown, layout_inj hh fits hl' hl hid]
  | none =>
    let c₁ := if (Specializer.directAllocator h l).isSome then c.count s .allocatorBuilds else c
    have h₁ : Prepares c c₁ ∧ Sound c₁ h := by
      unfold c₁
      split
      · exact ⟨count_prepares c s _, count_sound hc s _⟩
      · exact ⟨.refl c, hc⟩
    let learn : Shelf → Shelf :=
      fun p => { p with allocator := some (Specializer.directAllocator h l) }
    refine ⟨h₁.1.trans (modifyShelf_prepares c₁ s _ learn fun _ => rfl), ?_, fun _ => rfl⟩
    · apply modifyShelf_sound h₁.2 s _ learn
      intro p known hk
      obtain rfl := Option.some.inj hk
      exact Or.inr ⟨l, hl, rfl, rfl⟩

/-! ## Building -/

theorem Arity.count_of_ofNat {n : Nat} {a : Arity} (ha : Arity.ofNat n = .ok a) : a.count = n := by
  unfold Arity.ofNat at ha
  split at ha
  · rw [← Except.ok.inj ha]
  · exact absurd ha (by simp)

theorem initializerFor_eq (h : Heap) (s : SpecializerRef) (shape : SiteShape) (t : TypeRef)
    (c : Caches) : initializerFor h s shape t c =
      match h.initializer? shape.signature t with
      | .error reason => .error (.refusal reason) c
      | .ok none => .ok none c
      | .ok (some f) =>
        .ok (some (c.relayFor s f shape.withReceiver []).1)
          (c.relayFor s f shape.withReceiver []).2 := by
  unfold initializerFor Heap.initializer?
  cases h.slot t .init with
  | standard =>
    by_cases hargs : shape.signature.arity ≠ 0 ∧ h.slot t .new = .standard
    · simp only [if_pos hargs]
      rfl
    · simp only [if_neg hargs]
      rfl
  | user v => cases v <;> rfl
  | notFound => rfl
  | unsupported v => rfl

theorem allocationFor_eq (h : Heap) (s : SpecializerRef) (shape : SiteShape) (t : TypeRef)
    (initializer : Option RelayRef) (c : Caches) :
    allocationFor h s shape t initializer c =
      match h.slot t .new with
      | .standard =>
        match c.allocatorFor h s (h.typeAt t).layout with
        | (some l, c) => .ok (.native l) c
        | (none, c) => .error (.refusal .noNativeAllocator) c
      | .user (.staticMethod _ (.function f)) =>
        .ok (.relay (c.relayFor s f shape.withReceiver initializer.toList).1)
          (c.relayFor s f shape.withReceiver initializer.toList).2
      | _ => .error (.refusal .unsupportedNew) c := by
  unfold allocationFor
  cases h.slot t .new with
  | standard =>
    have hlook : (modifyGet (·.allocatorFor h s (h.typeAt t).layout) :
        EStateM Obstacle Caches (Option LayoutRef)) c =
        .ok (c.allocatorFor h s (h.typeAt t).layout).1
          (c.allocatorFor h s (h.typeAt t).layout).2 := rfl
    change EStateM.bind _ _ c = _
    unfold EStateM.bind
    rw [hlook]
    cases c.allocatorFor h s (h.typeAt t).layout with
    | mk l? c => cases l? <;> rfl
  | user v =>
    cases v with
    | staticMethod box inner => cases inner <;> rfl
    | _ => rfl
  | notFound => rfl
  | unsupported v => rfl

theorem initializerFor_spec (hc : Sound c h) (s : SpecializerRef) (shape : SiteShape)
    (t : TypeRef) :
    (∃ i f c', initializerFor h s shape t c = .ok i c' ∧ Prepares c c' ∧ Sound c' h ∧
      h.initializer? shape.signature t = .ok f ∧
      c'.Initializes shape.signature.withReceiver i f) ∨
    (∃ reason, initializerFor h s shape t c = .error (.refusal reason) c ∧
      h.initializer? shape.signature t = .error reason) := by
  rw [initializerFor_eq]
  cases hi : h.initializer? shape.signature t with
  | error reason => exact Or.inr ⟨reason, rfl, rfl⟩
  | ok f? =>
    cases f? with
    | none => exact Or.inl ⟨none, none, c, rfl, .refl c, hc, rfl, .none⟩
    | some f =>
      obtain ⟨hp, hs, calls⟩ := relayFor_spec hc s f shape.signature.withReceiver []
      exact Or.inl ⟨_, some f, _, rfl, hp, hs, rfl, .some calls⟩

/-- What makes the new object is right, unless the numbers of layouts have wrapped around. -/
theorem allocationFor_spec (hc : Sound c h) (hh : h.Hierarchy) (s : SpecializerRef)
    (shape : SiteShape) (t : TypeRef) (i : Option RelayRef) :
    (∃ a c', allocationFor h s shape t i c = .ok a c' ∧ Prepares c c' ∧ Sound c' h ∧
      (h.Fits → ∃ m, h.maker? t = .ok m ∧ c'.Makes shape.signature.withReceiver a m)) ∨
    (∃ reason c', allocationFor h s shape t i c = .error (.refusal reason) c' ∧ Prepares c c' ∧
      Sound c' h ∧ (h.Fits → h.maker? t = .error reason)) := by
  rw [allocationFor_eq]
  unfold Heap.maker?
  cases h.slot t .new with
  | standard =>
    obtain ⟨hp, hs, hright⟩ := allocatorFor_spec hc hh s (layout_lt hh t)
    cases ha : c.allocatorFor h s (h.typeAt t).layout with
    | mk l? c' =>
      rw [ha] at hp hs hright
      cases l? with
      | none => exact Or.inr ⟨_, c', rfl, hp, hs, fun fits => by simp [← hright fits]⟩
      | some l =>
        refine Or.inl ⟨_, c', rfl, hp, hs, fun fits => ⟨.native l, ?_, .native l⟩⟩
        simp [← hright fits]
  | user v =>
    cases v with
    | staticMethod box inner =>
      cases inner with
      | function f =>
        obtain ⟨hp, hs, calls⟩ := relayFor_spec hc s f shape.signature.withReceiver i.toList
        exact Or.inl ⟨_, _, rfl, hp, hs, fun _ => ⟨.user f, rfl, .relay calls⟩⟩
      | _ => exact Or.inr ⟨_, c, rfl, .refl c, hc, fun _ => rfl⟩
    | _ => exact Or.inr ⟨_, c, rfl, .refl c, hc, fun _ => rfl⟩
  | notFound => exact Or.inr ⟨_, c, rfl, .refl c, hc, fun _ => rfl⟩
  | unsupported v => exact Or.inr ⟨_, c, rfl, .refl c, hc, fun _ => rfl⟩

theorem build_eq (h : Heap) (s : SpecializerRef) (shape : SiteShape) (t : TypeRef) (c : Caches) :
    build h s shape t c =
      match Arity.ofNat shape.signature.arity with
      | .error e => .error (.error e) c
      | .ok arity =>
        match initializerFor h s shape t c with
        | .error o c => .error o c
        | .ok initializer c =>
          match allocationFor h s shape t initializer c with
          | .error o c => .error o c
          | .ok allocate c =>
            .ok ⟨(h.typeAt t).version, arity, allocate, initializer⟩ (c.count s .siteBuilds) := by
  unfold build
  cases Arity.ofNat shape.signature.arity with
  | error e => rfl
  | ok arity =>
    change EStateM.bind (initializerFor h s shape t) _ c = _
    unfold EStateM.bind
    dsimp only
    cases initializerFor h s shape t c with
    | error o c' => rfl
    | ok i c' =>
      change EStateM.bind (allocationFor h s shape t i) _ c' = _
      unfold EStateM.bind
      dsimp only
      cases allocationFor h s shape t i c' <;> rfl

theorem build_spec (hc : Sound c h) (hh : h.Hierarchy) (s : SpecializerRef) (shape : SiteShape)
    (t : TypeRef) :
    (∃ k c', build h s shape t c = .ok k c' ∧ Prepares c c' ∧ Sound c' h ∧
      k.version = (h.typeAt t).version ∧
      (h.Fits → ∃ r, h.construction? shape.signature t = .ok r ∧
        c'.Realizes shape.signature k r)) ∨
    (∃ o c', build h s shape t c = .error o c' ∧ Prepares c c' ∧ Sound c' h ∧
      (h.Fits → h.construction? shape.signature t = .error o)) := by
  rw [build_eq]
  unfold Heap.construction?
  cases ha : Arity.ofNat shape.signature.arity with
  | error e => exact Or.inr ⟨.error e, c, rfl, .refl c, hc, fun _ => rfl⟩
  | ok arity =>
    rcases initializerFor_spec hc s shape t with
      ⟨i, f, c₁, hi, hp₁, hs₁, hf, inits⟩ | ⟨reason, hi, hf⟩
    · simp only [hi, hf]
      rcases allocationFor_spec hs₁ hh s shape t i with
        ⟨a, c₂, hm, hp₂, hs₂, makes⟩ | ⟨reason, c₂, hm, hp₂, hs₂, hr⟩
      · simp only [hm]
        have hp₃ := count_prepares c₂ s .siteBuilds
        refine Or.inl ⟨_, _, rfl, (hp₁.trans hp₂).trans hp₃, count_sound hs₂ s _, rfl, ?_⟩
        intro fits
        obtain ⟨m, hmaker, makes⟩ := makes fits
        exact ⟨⟨m, f⟩, by simp only [hmaker], Arity.count_of_ofNat ha, makes.mono hp₃.grows,
          (inits.mono hp₂.grows).mono hp₃.grows⟩
      · simp only [hm]
        refine Or.inr ⟨_, c₂, rfl, hp₁.trans hp₂, hs₂, ?_⟩
        intro fits
        simp only [hr fits]
    · simp only [hi, hf]
      exact Or.inr ⟨_, c, rfl, .refl c, hc, fun _ => rfl⟩

/-! ## Filing -/

theorem addShortcut_grows (c : Caches) (k : Shortcut) : Grows c (c.addShortcut k).2 := by
  refine ⟨le_rfl, fun _ _ => rfl, le_rfl, fun _ _ => rfl, ?_, ?_, le_rfl, fun _ _ => ⟨rfl, rfl⟩⟩
  · simp [addShortcut]
  · intro p hp
    rw [shortcutAt_addShortcut, if_neg (Nat.ne_of_lt hp)]

theorem addShortcut_sound (hc : Sound c h) (k : Shortcut) : Sound (c.addShortcut k).2 h :=
  ⟨fun s key r hr => (hc.remembered s key r hr).mono (addShortcut_grows c k), hc.allocator,
    hc.callable, hc.site, hc.plan⟩

/-- A new shortcut is filed under its key, and nothing else is filed. -/
structure Filed (c c' : Caches) (s : SpecializerRef) (sig : Signature) (k : ShortcutRef) :
    Prop where
  grows : Grows c c'
  sites : c'.sites = c.sites
  has : c'.HasShortcut k
  filed : ∀ s' l key k', (c'.shelf s' l).shortcuts.get? key = some k' →
    (c.shelf s' l).shortcuts.get? key = some k' ∨ (s' = s ∧ key.signature = sig ∧ k' = k)

theorem file_spec (hc : Sound c h) (s : SpecializerRef) (l : LayoutId) (key : ShortcutKey)
    (k : Shortcut) : Filed c (c.file s l key k).2 s key.signature (c.file s l key k).1 ∧
      Sound (c.file s l key k).2 h ∧
      (c.file s l key k).2.shortcutAt (c.file s l key k).1 = k := by
  let r : ShortcutRef := ⟨c.shortcuts.size⟩
  let put : Shelf → Shelf := fun p => { p with shortcuts := p.shortcuts.insert key r }
  have hsize : (c.addShortcut k).2.HasShortcut r := by
    change c.shortcuts.size < (c.shortcuts.push k).size
    simp
  have g : Grows (c.addShortcut k).2 ((c.addShortcut k).2.modifyShelf s l put) :=
    modifySpecializer_grows fun _ => rfl
  refine ⟨⟨(addShortcut_grows c k).trans g, rfl, hsize, ?_⟩, ?_, ?_⟩
  · intro s' l' key' k' hk
    change (((c.addShortcut k).2.modifyShelf s l put).shelf s' l').shortcuts.get? key' =
      some k' at hk
    unfold shelf modifyShelf at hk
    rw [specializerAt_modifySpecializer] at hk
    split at hk
    · rename_i hs
      change (Specializer.shelf _ l').shortcuts.get? key' = some k' at hk
      rw [Specializer.shelf_insert] at hk
      split at hk
      · change (Table.insert _ key r).get? key' = some k' at hk
        rw [Table.get?_insert] at hk
        split at hk
        · rename_i hl hkey
          exact Or.inr ⟨hs.1.symm, by rw [hkey], (Option.some.inj hk).symm⟩
        · rename_i hl _
          subst hl
          exact Or.inl hk
      · exact Or.inl hk
    · exact Or.inl hk
  · exact modifyShelf_sound (addShortcut_sound hc k) s l put fun _ _ hk => Or.inl hk
  · exact (shortcutAt_addShortcut c k r).trans (if_pos rfl)

/-! ## Requests -/

inductive Answered (c : Caches) (h : Heap) (s : SpecializerRef) (shape : SiteShape) (t : TypeRef) :
    EStateM.Result BindError Caches (Except Refusal ShortcutRef) → Prop
  | refused {reason : Refusal} {c' : Caches} (prepares : Prepares c c') (sound : Sound c' h)
      (right : h.Fits → h.recipe (c.settings s) shape t = .error (.refusal reason)) :
      Answered c h s shape t (.ok (.error reason) c')
  | failed {e : BindError} {c' : Caches} (prepares : Prepares c c') (sound : Sound c' h)
      (right : h.Fits → h.recipe (c.settings s) shape t = .error (.error e)) :
      Answered c h s shape t (.error e c')
  | reused {k : ShortcutRef} {c' : Caches} (prepares : Prepares c c') (sound : Sound c' h)
      (passed : gate (c.settings s) h shape t = none)
      (filed : (c.shelf s (h.layoutOf t).id).shortcuts.get? ⟨(h.typeAt t).id, shape.signature⟩ =
        some k)
      (current : (c.shortcutAt k).version = (h.typeAt t).version) :
      Answered c h s shape t (.ok (.ok k) c')
  | built {k : ShortcutRef} {c' : Caches} (filed : Filed c c' s shape.signature k)
      (sound : Sound c' h) (current : (c'.shortcutAt k).version = (h.typeAt t).version)
      (right : h.Fits → ∃ r, h.recipe (c.settings s) shape t = .ok r ∧
        c'.Realizes shape.signature (c'.shortcutAt k) r) :
      Answered c h s shape t (.ok (.ok k) c')

theorem Filed.of_prepares {c₁ c₂ c₃ : Caches} {s : SpecializerRef} {sig : Signature}
    {k : ShortcutRef} (p : Prepares c₁ c₂) (f : Filed c₂ c₃ s sig k) : Filed c₁ c₃ s sig k :=
  ⟨p.grows.trans f.grows, f.sites.trans p.sites, f.has,
    fun s' l key k' hk => by rw [← p.filed]; exact f.filed s' l key k' hk⟩

theorem request_spec (hc : Sound c h) (hh : h.Hierarchy) (s : SpecializerRef) (shape : SiteShape)
    (t : TypeRef) : Answered c h s shape t (request h s shape t c) := by
  unfold request
  cases hg : gate (c.settings s) h shape t with
  | some reason =>
    refine .refused (count_prepares c s _) (count_sound hc s _) fun _ => ?_
    rw [Heap.recipe, hg]
  | none =>
    have hrecipe : h.recipe (c.settings s) shape t = h.construction? shape.signature t := by
      rw [Heap.recipe, hg]
    have hp₁ := openShelf_prepares c s (h.layoutOf t).id
    have hs₁ := openShelf_sound hc s (h.layoutOf t).id
    dsimp only
    cases hk : (c.openShelf s (h.layoutOf t).id).current? s (h.layoutOf t).id
        ⟨(h.typeAt t).id, shape.signature⟩ (h.typeAt t).version with
    | some k =>
      obtain ⟨hfiled, hcurrent⟩ := Option.filter_eq_some_iff.mp hk
      rw [hp₁.filed] at hfiled
      exact .reused (hp₁.trans (count_prepares _ s _)) (count_sound hs₁ s _) hg hfiled
        (of_decide_eq_true hcurrent)
    | none =>
      rcases build_spec hs₁ hh s shape t with
        ⟨k, c₂, hb, hp₂, hs₂, hversion, right⟩ | ⟨o, c₂, hb, hp₂, hs₂, right⟩
      · simp only [hb]
        obtain ⟨hfiled, hs₃, hat⟩ :=
          file_spec hs₂ s (h.layoutOf t).id ⟨(h.typeAt t).id, shape.signature⟩ k
        refine .built (hfiled.of_prepares (hp₁.trans hp₂)) hs₃ (by rw [hat, hversion]) ?_
        intro fits
        obtain ⟨r, hr, realizes⟩ := right fits
        exact ⟨r, hrecipe.trans hr, by rw [hat]; exact realizes.mono hfiled.grows⟩
      · simp only [hb]
        cases o with
        | refusal reason =>
          exact .refused ((hp₁.trans hp₂).trans (count_prepares c₂ s _)) (count_sound hs₂ s _)
            fun fits => hrecipe.trans (right fits)
        | error e => exact .failed (hp₁.trans hp₂) hs₂ fun fits => hrecipe.trans (right fits)

end Caches

end InlineCache
