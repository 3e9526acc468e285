import InlineCache.CallSite
import InlineCache.Proofs.Recipe

/-! # What holds of the caches

What is cached only grows: a shortcut never changes, a relay keeps what it calls, a call site its
shape and a specializer its settings. -/

namespace InlineCache

theorem Shortcut.mem_relays_iff {k : Shortcut} {r : RelayRef} :
    r ∈ k.relays ↔ k.allocate = .relay r ∨ k.initializer = some r := by
  unfold relays
  cases k.allocate <;> simp [eq_comm]

namespace Caches

/-! ## What exists -/

def HasSpecializer (c : Caches) (s : SpecializerRef) : Prop := s.index < c.specializers.size

def HasSite (c : Caches) (s : CallSiteRef) : Prop := s.index < c.sites.size

def HasShortcut (c : Caches) (k : ShortcutRef) : Prop := k.index < c.shortcuts.size

def HasRelay (c : Caches) (r : RelayRef) : Prop := r.index < c.relays.size

instance (c : Caches) (s : SpecializerRef) : Decidable (c.HasSpecializer s) :=
  inferInstanceAs (Decidable (_ < _))

instance (c : Caches) (s : CallSiteRef) : Decidable (c.HasSite s) :=
  inferInstanceAs (Decidable (_ < _))

/-! ## Reading after a change -/

theorem specializerAt_modifySpecializer (c : Caches) (s p : SpecializerRef)
    (f : Specializer → Specializer) : (c.modifySpecializer s f).specializerAt p =
      if s = p ∧ c.HasSpecializer p then f (c.specializerAt p) else c.specializerAt p := by
  cases s
  cases p
  simp only [specializerAt, modifySpecializer, getD_modify, HasSpecializer,
    SpecializerRef.mk.injEq]

theorem specializerAt_addSpecializer (c : Caches) (p : Specializer) (s : SpecializerRef) :
    (c.addSpecializer p).2.specializerAt s =
      if s.index = c.specializers.size then p else c.specializerAt s :=
  getD_push c.specializers p s.index default

theorem siteAt_setTarget (c : Caches) (s p : CallSiteRef) (target : Option Target) :
    (c.setTarget s target).siteAt p =
      if s = p ∧ c.HasSite p then { c.siteAt p with target } else c.siteAt p := by
  cases s
  cases p
  simp only [siteAt, setTarget, getD_modify, HasSite, CallSiteRef.mk.injEq]

theorem siteAt_addSite (c : Caches) (shape : SiteShape) (p : CallSiteRef) :
    (c.addSite shape).2.siteAt p = if p.index = c.sites.size then { shape } else c.siteAt p :=
  getD_push c.sites { shape } p.index default

theorem shortcutAt_addShortcut (c : Caches) (k : Shortcut) (p : ShortcutRef) :
    (c.addShortcut k).2.shortcutAt p = if p.index = c.shortcuts.size then k else c.shortcutAt p :=
  getD_push c.shortcuts k p.index default

theorem relayAt_addRelay (c : Caches) (r : Relay) (p : RelayRef) :
    (c.addRelay r).2.relayAt p = if p.index = c.relays.size then r else c.relayAt p :=
  getD_push c.relays r p.index default

/-! ## What never changes -/

/-- More may be cached, and what is there stays what it is. -/
structure Grows (c c' : Caches) : Prop where
  specializers : c.specializers.size ≤ c'.specializers.size
  settings : ∀ s, c.HasSpecializer s → c'.settings s = c.settings s
  sites : c.sites.size ≤ c'.sites.size
  shape : ∀ s, c.HasSite s → (c'.siteAt s).shape = (c.siteAt s).shape
  shortcuts : c.shortcuts.size ≤ c'.shortcuts.size
  shortcutAt : ∀ k, c.HasShortcut k → c'.shortcutAt k = c.shortcutAt k
  relays : c.relays.size ≤ c'.relays.size
  relay : ∀ r, c.HasRelay r → (c'.relayAt r).callable = (c.relayAt r).callable ∧
    (c'.relayAt r).shape = (c.relayAt r).shape

theorem Grows.refl (c : Caches) : Grows c c :=
  ⟨le_rfl, fun _ _ => rfl, le_rfl, fun _ _ => rfl, le_rfl, fun _ _ => rfl, le_rfl,
    fun _ _ => ⟨rfl, rfl⟩⟩

theorem Grows.trans {c₁ c₂ c₃ : Caches} (a : Grows c₁ c₂) (b : Grows c₂ c₃) : Grows c₁ c₃ := by
  refine ⟨a.specializers.trans b.specializers, ?_, a.sites.trans b.sites, ?_,
    a.shortcuts.trans b.shortcuts, ?_, a.relays.trans b.relays, ?_⟩
  · intro s hs
    rw [b.settings s (lt_of_lt_of_le hs a.specializers), a.settings s hs]
  · intro s hs
    rw [b.shape s (lt_of_lt_of_le hs a.sites), a.shape s hs]
  · intro k hk
    rw [b.shortcutAt k (lt_of_lt_of_le hk a.shortcuts), a.shortcutAt k hk]
  · intro r hr
    have hr' := b.relay r (lt_of_lt_of_le hr a.relays)
    rw [hr'.1, hr'.2]
    exact a.relay r hr

/-- The relay calls this function with this signature. -/
structure RelaysTo (c : Caches) (r : RelayRef) (f : FunctionRef) (s : Signature) : Prop where
  has : c.HasRelay r
  callable : (c.relayAt r).callable = .function f
  shape : (c.relayAt r).shape = { signature := s }

theorem RelaysTo.mono {c c' : Caches} {r : RelayRef} {f : FunctionRef} {s : Signature}
    (hr : c.RelaysTo r f s) (g : Grows c c') : c'.RelaysTo r f s := by
  obtain ⟨hcallable, hshape⟩ := g.relay r hr.has
  exact ⟨lt_of_lt_of_le hr.has g.relays, hcallable.trans hr.callable, hshape.trans hr.shape⟩

/-- How an object is made fits what should make it; `s` is the signature with the receiver. -/
inductive Makes (c : Caches) (s : Signature) : Allocation → Maker → Prop
  | native (l : LayoutRef) : Makes c s (.native l) (.native l)
  | relay {r : RelayRef} {f : FunctionRef} (calls : c.RelaysTo r f s) :
      Makes c s (.relay r) (.user f)

/-- The initializer of a shortcut fits what should initialize; `s` is the signature with the
receiver. -/
inductive Initializes (c : Caches) (s : Signature) : Option RelayRef → Option FunctionRef → Prop
  | none : Initializes c s none none
  | some {r : RelayRef} {f : FunctionRef} (calls : c.RelaysTo r f s) :
      Initializes c s (some r) (some f)

/-- A shortcut does what a recipe says, for calls with this signature. -/
structure Realizes (c : Caches) (s : Signature) (k : Shortcut) (r : Recipe) : Prop where
  arity : k.arity.count = s.arity
  maker : c.Makes s.withReceiver k.allocate r.maker
  initializer : c.Initializes s.withReceiver k.initializer r.initializer

theorem Makes.mono {c c' : Caches} {s : Signature} {a : Allocation} {m : Maker}
    (hm : c.Makes s a m) (g : Grows c c') : c'.Makes s a m := by
  cases hm with
  | native l => exact .native l
  | relay calls => exact .relay (calls.mono g)

theorem Initializes.mono {c c' : Caches} {s : Signature} {i : Option RelayRef}
    {f : Option FunctionRef} (hi : c.Initializes s i f) (g : Grows c c') :
    c'.Initializes s i f := by
  cases hi with
  | none => exact .none
  | some calls => exact .some (calls.mono g)

theorem Realizes.mono {c c' : Caches} {s : Signature} {k : Shortcut} {r : Recipe}
    (hr : c.Realizes s k r) (g : Grows c c') : c'.Realizes s k r :=
  ⟨hr.arity, hr.maker.mono g, hr.initializer.mono g⟩

/-! ## What always holds -/

/-- What is remembered is right, whatever the versions are. -/
structure Sound (c : Caches) (h : Heap) : Prop where
  remembered : ∀ s key r, (c.specializerAt s).relays.get? key = some r →
    c.RelaysTo r key.callable key.signature
  allocator : ∀ s id known, (c.shelf s id).allocator = some known →
    ∃ l : LayoutRef, l.index < h.layouts.size ∧ (h.layoutAt l).id = id ∧
      known = Specializer.directAllocator h l
  callable : ∀ r t, (c.relayAt r).callable ≠ .type t
  site : ∀ r s, (c.relayAt r).site = some s →
    c.HasSite s ∧ (c.siteAt s).shape = (c.relayAt r).shape
  plan : ∀ s f plan, (c.siteAt s).target = some (.function f plan) →
    plan = Plan.make? (h.functionAt f) (c.siteAt s).shape.signature

theorem sound_initial (h : Heap) : Sound .initial h := by
  have hfresh : ∀ s, Caches.initial.specializerAt s = default := by
    rintro ⟨_ | i⟩ <;> rfl
  refine ⟨?_, ?_, ?_, ?_, ?_⟩
  · intro s key r hr
    rw [hfresh] at hr
    change none = some r at hr
    exact absurd hr (by simp)
  · intro s id known hk
    rw [shelf, hfresh] at hk
    change none = some known at hk
    exact absurd hk (by simp)
  · intro r t hr
    exact Value.noConfusion hr
  · intro r s hs
    change none = some s at hs
    exact absurd hs (by simp)
  · intro s f plan hs
    change none = some (Target.function f plan) at hs
    exact absurd hs (by simp)

/-! ## Changes to one specializer -/

end Caches

def Specializer.shelf (p : Specializer) (l : LayoutId) : Shelf := (p.shelves.get? l).getD {}

namespace Caches

/-- No call site and nothing filed changes. -/
structure Prepares (c c' : Caches) : Prop where
  grows : c.Grows c'
  sites : c'.sites = c.sites
  shortcuts : c'.shortcuts = c.shortcuts
  filed : ∀ s l, (c'.shelf s l).shortcuts = (c.shelf s l).shortcuts

theorem Prepares.refl (c : Caches) : Prepares c c := ⟨.refl c, rfl, rfl, fun _ _ => rfl⟩

theorem Prepares.trans {c₁ c₂ c₃ : Caches} (a : Prepares c₁ c₂) (b : Prepares c₂ c₃) :
    Prepares c₁ c₃ :=
  ⟨a.grows.trans b.grows, b.sites.trans a.sites, b.shortcuts.trans a.shortcuts,
    fun s l => (b.filed s l).trans (a.filed s l)⟩

theorem Prepares.held (c : Caches) (held : Held) : Prepares c { c with held } :=
  ⟨⟨le_rfl, fun _ _ => rfl, le_rfl, fun _ _ => rfl, le_rfl, fun _ _ => rfl, le_rfl,
    fun _ _ => ⟨rfl, rfl⟩⟩, rfl, rfl, fun _ _ => rfl⟩

theorem Sound.held {c : Caches} {h : Heap} (hc : Sound c h) (held : Held) :
    Sound { c with held } h :=
  ⟨fun s key r hr => (hc.remembered s key r hr).mono (Prepares.held c held).grows, hc.allocator,
    hc.callable, hc.site, hc.plan⟩

section

variable {c : Caches} {h : Heap} {s : SpecializerRef} {f : Specializer → Specializer}

theorem modifySpecializer_grows (hsettings : ∀ p, (f p).settings = p.settings) :
    Grows c (c.modifySpecializer s f) := by
  refine ⟨?_, ?_, le_rfl, fun _ _ => rfl, le_rfl, fun _ _ => rfl, le_rfl, fun _ _ => ⟨rfl, rfl⟩⟩
  · simp [modifySpecializer]
  · intro p _
    rw [settings, settings, specializerAt_modifySpecializer]
    split
    · exact hsettings _
    · rfl

theorem modifySpecializer_prepares (hsettings : ∀ p, (f p).settings = p.settings)
    (hfiled : ∀ p l, ((f p).shelf l).shortcuts = (p.shelf l).shortcuts) :
    Prepares c (c.modifySpecializer s f) := by
  refine ⟨modifySpecializer_grows hsettings, rfl, rfl, ?_⟩
  intro p l
  unfold shelf
  rw [specializerAt_modifySpecializer]
  split
  · exact hfiled _ l
  · rfl

theorem modifySpecializer_sound (hc : Sound c h)
    (hremembered : ∀ p key r, (f p).relays.get? key = some r →
      p.relays.get? key = some r ∨ c.RelaysTo r key.callable key.signature)
    (hallocator : ∀ p id known, ((f p).shelf id).allocator = some known →
      (p.shelf id).allocator = some known ∨ ∃ l : LayoutRef, l.index < h.layouts.size ∧
        (h.layoutAt l).id = id ∧ known = Specializer.directAllocator h l) :
    Sound (c.modifySpecializer s f) h := by
  have mono : ∀ {r g sig}, c.RelaysTo r g sig → (c.modifySpecializer s f).RelaysTo r g sig :=
    fun hr => ⟨hr.has, hr.callable, hr.shape⟩
  refine ⟨?_, ?_, hc.callable, hc.site, hc.plan⟩
  · intro p key r hr
    rw [specializerAt_modifySpecializer] at hr
    split at hr
    · rcases hremembered _ key r hr with hold | hnew
      · exact mono (hc.remembered p key r hold)
      · exact mono hnew
    · exact mono (hc.remembered p key r hr)
  · intro p id known hk
    unfold shelf at hk
    rw [specializerAt_modifySpecializer] at hk
    split at hk
    · rcases hallocator _ id known hk with hold | hnew
      · exact hc.allocator p id known hold
      · exact hnew
    · exact hc.allocator p id known hk

end

theorem count_prepares (c : Caches) (s : SpecializerRef) (n : Counter) : Prepares c (c.count s n) :=
  modifySpecializer_prepares (fun _ => rfl) fun _ _ => rfl

theorem count_sound {c : Caches} {h : Heap} (hc : Sound c h) (s : SpecializerRef) (n : Counter) :
    Sound (c.count s n) h :=
  modifySpecializer_sound hc (fun _ _ _ hr => Or.inl hr) fun _ _ _ hk => Or.inl hk

/-! ## Call sites and new specializers -/

variable {c : Caches} {h : Heap}

theorem setTarget_grows (c : Caches) (s : CallSiteRef) (target : Option Target) :
    Grows c (c.setTarget s target) := by
  refine ⟨le_rfl, fun _ _ => rfl, ?_, ?_, le_rfl, fun _ _ => rfl, le_rfl, fun _ _ => ⟨rfl, rfl⟩⟩
  · simp [setTarget]
  · intro p _
    rw [siteAt_setTarget]
    split <;> rfl

theorem setTarget_sound (hc : Sound c h) (s : CallSiteRef) (target : Option Target)
    (hplan : ∀ f plan, target = some (.function f plan) →
      plan = Plan.make? (h.functionAt f) (c.siteAt s).shape.signature) :
    Sound (c.setTarget s target) h := by
  have g := setTarget_grows c s target
  have hshape : ∀ p, ((c.setTarget s target).siteAt p).shape = (c.siteAt p).shape := by
    intro p
    rw [siteAt_setTarget]
    split <;> rfl
  refine ⟨fun p key r hr => (hc.remembered p key r hr).mono g, hc.allocator, hc.callable, ?_, ?_⟩
  · intro r p hp
    obtain ⟨hhas, heq⟩ := hc.site r p hp
    exact ⟨lt_of_lt_of_le hhas g.sites, (hshape p).trans heq⟩
  · intro p f plan hp
    rw [hshape]
    rw [siteAt_setTarget] at hp
    split at hp
    · rename_i hsp
      rw [← hsp.1]
      exact hplan f plan hp
    · exact hc.plan p f plan hp

theorem addSite_grows (c : Caches) (shape : SiteShape) : Grows c (c.addSite shape).2 := by
  refine ⟨le_rfl, fun _ _ => rfl, ?_, ?_, le_rfl, fun _ _ => rfl, le_rfl, fun _ _ => ⟨rfl, rfl⟩⟩
  · simp [addSite]
  · intro p hp
    rw [siteAt_addSite, if_neg (Nat.ne_of_lt hp)]

theorem addSite_sound (hc : Sound c h) (shape : SiteShape) : Sound (c.addSite shape).2 h := by
  have g := addSite_grows c shape
  refine ⟨fun p key r hr => (hc.remembered p key r hr).mono g, hc.allocator, hc.callable, ?_, ?_⟩
  · intro r p hp
    obtain ⟨hhas, heq⟩ := hc.site r p hp
    exact ⟨lt_of_lt_of_le hhas g.sites, (g.shape p hhas).trans heq⟩
  · intro p f plan hp
    rw [siteAt_addSite] at hp ⊢
    split at hp
    · exact absurd hp (by simp)
    · rename_i hne
      rw [if_neg hne]
      exact hc.plan p f plan hp

def linkSite (c : Caches) (r : RelayRef) (s : CallSiteRef) : Caches :=
  { c with relays := c.relays.modify r.index fun p => { p with site := some s } }

theorem relayAt_linkSite (c : Caches) (r p : RelayRef) (s : CallSiteRef) :
    (c.linkSite r s).relayAt p =
      if r.index = p.index ∧ p.index < c.relays.size then { c.relayAt p with site := some s }
      else c.relayAt p :=
  getD_modify c.relays r.index p.index _ default

theorem linkSite_grows (c : Caches) (r : RelayRef) (s : CallSiteRef) :
    Grows c (c.linkSite r s) := by
  refine ⟨le_rfl, fun _ _ => rfl, le_rfl, fun _ _ => rfl, le_rfl, fun _ _ => rfl, ?_, ?_⟩
  · simp [linkSite]
  · intro p _
    rw [relayAt_linkSite]
    split <;> exact ⟨rfl, rfl⟩

theorem linkSite_sound (hc : Sound c h) {r : RelayRef} {s : CallSiteRef} (hs : c.HasSite s)
    (hshape : (c.siteAt s).shape = (c.relayAt r).shape) : Sound (c.linkSite r s) h := by
  have g := linkSite_grows c r s
  refine ⟨fun p key r hr => (hc.remembered p key r hr).mono g, hc.allocator, ?_, ?_, hc.plan⟩
  · intro p t
    rw [relayAt_linkSite]
    split <;> exact hc.callable p t
  · intro p q hq
    rw [relayAt_linkSite] at hq ⊢
    split at hq
    · rename_i hrp
      obtain rfl := Option.some.inj hq
      have hrp' : r = p := by
        cases r
        cases p
        rw [RelayRef.mk.injEq]
        exact hrp.1
      rw [if_pos hrp, ← hrp']
      exact ⟨hs, hshape⟩
    · rename_i hne
      rw [if_neg hne]
      exact hc.site p q hq

theorem relaySite_eq (c : Caches) (r : RelayRef) : (c.relaySite r).2 = c ∨
    (c.relaySite r).2 = (c.addSite (c.relayAt r).shape).2.linkSite r ⟨c.sites.size⟩ := by
  unfold relaySite
  split
  · exact Or.inl rfl
  · exact Or.inr rfl

theorem relaySite_grows (c : Caches) (r : RelayRef) : Grows c (c.relaySite r).2 := by
  rcases relaySite_eq c r with heq | heq <;> rw [heq]
  · exact .refl c
  · exact (addSite_grows c _).trans (linkSite_grows _ r _)

theorem relaySite_sound (hc : Sound c h) (r : RelayRef) : Sound (c.relaySite r).2 h := by
  rcases relaySite_eq c r with heq | heq <;> rw [heq]
  · exact hc
  · apply linkSite_sound (addSite_sound hc _)
    · change c.sites.size < (c.sites.push _).size
      simp
    · rw [siteAt_addSite, if_pos rfl]
      rfl

theorem addSpecializer_grows (c : Caches) (p : Specializer) :
    Grows c (c.addSpecializer p).2 := by
  refine ⟨?_, ?_, le_rfl, fun _ _ => rfl, le_rfl, fun _ _ => rfl, le_rfl, fun _ _ => ⟨rfl, rfl⟩⟩
  · simp [addSpecializer]
  · intro s hs
    rw [settings, settings, specializerAt_addSpecializer, if_neg (Nat.ne_of_lt hs)]

theorem shelf_addSpecializer_fresh (c : Caches) (settings : Settings) (valid : settings.Valid)
    (s : SpecializerRef) (l : LayoutId) :
    (c.addSpecializer (.fresh settings valid)).2.shelf s l = c.shelf s l ∨
      (c.addSpecializer (.fresh settings valid)).2.shelf s l = {} := by
  unfold shelf
  rw [specializerAt_addSpecializer]
  split
  · exact Or.inr rfl
  · exact Or.inl rfl

theorem addSpecializer_sound (hc : Sound c h) (settings : Settings) (valid : settings.Valid) :
    Sound (c.addSpecializer (.fresh settings valid)).2 h := by
  have g := addSpecializer_grows c (.fresh settings valid)
  refine ⟨?_, ?_, hc.callable, hc.site, hc.plan⟩
  · intro s key r hr
    rw [specializerAt_addSpecializer] at hr
    split at hr
    · change none = some r at hr
      exact absurd hr (by simp)
    · exact (hc.remembered s key r hr).mono g
  · intro s id known hk
    rcases shelf_addSpecializer_fresh c settings valid s id with heq | heq <;> rw [heq] at hk
    · exact hc.allocator s id known hk
    · exact absurd hk (by simp)

theorem Sound.heap {h' : Heap} (hc : Sound c h) (g : h.Grows h') : Sound c h' := by
  refine ⟨hc.remembered, ?_, hc.callable, hc.site, ?_⟩
  · intro s id known hk
    obtain ⟨l, hl, hid, hknown⟩ := hc.allocator s id known hk
    refine ⟨l, lt_of_lt_of_le hl g.layouts, ?_, ?_⟩
    · rw [g.layoutAt l hl, hid]
    · rw [hknown, Specializer.directAllocator, Specializer.directAllocator, g.layoutAt l hl]
  · intro s f plan hs
    rw [Heap.functionAt, g.functions]
    exact hc.plan s f plan hs

end Caches

end InlineCache
