import InlineCache.Proofs.History

/-! # A granted shortcut is never stale

As long as a type has the version that a shortcut was granted for, the shortcut does what the
recipe of the type says. -/

namespace InlineCache.History

variable {o : Usage} {H K : History}

/-! ## What holds after every run -/

/-- What is filed or aimed at was granted, and what is remembered is right. -/
structure Sane (o : Usage) (H : History) : Prop where
  hierarchy : H.heap.Hierarchy
  sound : H.caches.Sound H.heap
  specializer : ∀ g ∈ H.grants, H.caches.HasSpecializer g.specializer
  shortcut : ∀ g ∈ H.grants, H.caches.HasShortcut g.shortcut
  filed : ∀ s l key k, (H.caches.shelf s l).shortcuts.get? key = some k →
    ∃ g ∈ H.grants, g.shortcut = k ∧ g.specializer = s ∧ g.shape.signature = key.signature
  target : ∀ site k, (H.caches.siteAt site).target = some (.shortcut k) →
    ∃ g ∈ H.grants, g.shortcut = k ∧ g.shape = (H.caches.siteAt site).shape ∧ o site g.specializer

/-- What exists stays, and no grant is forgotten. -/
structure Grows (H K : History) : Prop where
  heap : H.heap.Grows K.heap
  caches : H.caches.Grows K.caches
  grants : H.grants ⊆ K.grants

theorem Grows.refl (H : History) : Grows H H := ⟨.refl _, .refl _, fun _ hg => hg⟩

theorem Grows.trans {H₁ H₂ H₃ : History} (a : Grows H₁ H₂) (b : Grows H₂ H₃) : Grows H₁ H₃ :=
  ⟨a.heap.trans b.heap, a.caches.trans b.caches, fun _ hg => b.grants (a.grants hg)⟩

theorem sane_start (o : Usage) (functions : Array FunctionRecord) : Sane o (start functions) := by
  refine ⟨Heap.hierarchy_initial functions, Caches.sound_initial _, ?_, ?_, ?_, ?_⟩
  · exact fun _ hg => absurd hg List.not_mem_nil
  · exact fun _ hg => absurd hg List.not_mem_nil
  · rintro ⟨_ | i⟩ l key k hk
    · change none = some k at hk
      exact absurd hk (by simp)
    · change none = some k at hk
      exact absurd hk (by simp)
  · intro site k hk
    change none = some (Target.shortcut k) at hk
    exact absurd hk (by simp)

theorem Sane.withCaches (hs : Sane o H) {c : Caches} (g : H.caches.Grows c) (hc : c.Sound H.heap)
    (hfiled : ∀ s l key k, (c.shelf s l).shortcuts.get? key = some k →
      (H.caches.shelf s l).shortcuts.get? key = some k)
    (htarget : ∀ site k, (c.siteAt site).target = some (.shortcut k) →
      ∃ g ∈ H.grants, g.shortcut = k ∧ g.shape = (c.siteAt site).shape ∧ o site g.specializer) :
    Sane o (H.withCaches c) ∧ Grows H (H.withCaches c) := by
  refine ⟨⟨hs.hierarchy, hc, ?_, ?_, ?_, htarget⟩, .refl _, g, fun _ hg => hg⟩
  · exact fun k hk => lt_of_lt_of_le (hs.specializer k hk) g.specializers
  · exact fun k hk => lt_of_lt_of_le (hs.shortcut k hk) g.shortcuts
  · exact fun s l key k hk => hs.filed s l key k (hfiled s l key k hk)

theorem Sane.prepared (hs : Sane o H) {c : Caches} (p : H.caches.Prepares c)
    (hc : c.Sound H.heap) : Sane o (H.withCaches c) ∧ Grows H (H.withCaches c) := by
  apply hs.withCaches p.grows hc
  · intro s l key k hk
    rwa [← p.filed]
  · intro site k hk
    have hat : c.siteAt site = H.caches.siteAt site := by
      rw [Caches.siteAt, Caches.siteAt, p.sites]
    rw [hat] at hk ⊢
    exact hs.target site k hk

theorem Sane.setTarget (hs : Sane o H) (site : CallSiteRef) (target : Option Target)
    (hplan : ∀ f plan, target = some (.function f plan) →
      plan = Plan.make? (H.heap.functionAt f) (H.caches.siteAt site).shape.signature)
    (haim : ∀ k, target = some (.shortcut k) → ∃ g ∈ H.grants, g.shortcut = k ∧
      g.shape = (H.caches.siteAt site).shape ∧ o site g.specializer) :
    Sane o (H.withCaches (H.caches.setTarget site target)) ∧
      Grows H (H.withCaches (H.caches.setTarget site target)) := by
  apply hs.withCaches (Caches.setTarget_grows _ site target)
    (Caches.setTarget_sound hs.sound site target hplan)
  · exact fun _ _ _ _ hk => hk
  · intro p k hk
    rw [Caches.siteAt_setTarget] at hk ⊢
    split at hk
    · rename_i hp
      rw [if_pos hp, ← hp.1]
      exact haim k hk
    · rename_i hp
      rw [if_neg hp]
      exact hs.target p k hk

theorem Sane.addSite (hs : Sane o H) (shape : SiteShape) :
    Sane o (H.withCaches (H.caches.addSite shape).2) ∧
      Grows H (H.withCaches (H.caches.addSite shape).2) := by
  apply hs.withCaches (Caches.addSite_grows _ shape) (Caches.addSite_sound hs.sound shape)
  · exact fun _ _ _ _ hk => hk
  · intro p k hk
    rw [Caches.siteAt_addSite] at hk ⊢
    split at hk
    · exact absurd hk (by simp)
    · rename_i hp
      rw [if_neg hp]
      exact hs.target p k hk

theorem Sane.relaySite (hs : Sane o H) (r : RelayRef) :
    Sane o (H.withCaches (H.caches.relaySite r).2) ∧
      Grows H (H.withCaches (H.caches.relaySite r).2) := by
  apply hs.withCaches (Caches.relaySite_grows _ r) (Caches.relaySite_sound hs.sound r)
  · intro s l key k hk
    rcases Caches.relaySite_eq H.caches r with heq | heq <;> rw [heq] at hk <;> exact hk
  · rcases Caches.relaySite_eq H.caches r with heq | heq <;> rw [heq]
    · exact hs.target
    · exact (hs.addSite (H.caches.relayAt r).shape).1.target

theorem Sane.addSpecializer (hs : Sane o H) (settings : Settings) (valid : settings.Valid) :
    Sane o (H.withCaches (H.caches.addSpecializer (.fresh settings valid)).2) ∧
      Grows H (H.withCaches (H.caches.addSpecializer (.fresh settings valid)).2) := by
  apply hs.withCaches (Caches.addSpecializer_grows _ _)
    (Caches.addSpecializer_sound hs.sound settings valid)
  · intro s l key k hk
    rcases Caches.shelf_addSpecializer_fresh H.caches settings valid s l with heq | heq <;>
      rw [heq] at hk
    · exact hk
    · exact absurd hk (by simp)
  · exact hs.target

theorem Sane.heap (hs : Sane o H) {h : Heap} (change : H.heap.Change h) :
    Sane o (H.withHeap h) ∧ Grows H (H.withHeap h) := by
  have g := change.grows hs.hierarchy
  exact ⟨⟨change.hierarchy hs.hierarchy, hs.sound.heap g, hs.specializer, hs.shortcut, hs.filed,
    hs.target⟩, g, .refl _, fun _ hg => hg⟩

theorem Sane.grant (hs : Sane o H) {g : Grant} (has : H.caches.HasSpecializer g.specializer)
    (hk : H.caches.HasShortcut g.shortcut) :
    Sane o { H with grants := g :: H.grants } ∧ Grows H { H with grants := g :: H.grants } := by
  refine ⟨⟨hs.hierarchy, hs.sound, ?_, ?_, ?_, ?_⟩, .refl _, .refl _, List.subset_cons_self _ _⟩
  · exact List.forall_mem_cons.mpr ⟨has, hs.specializer⟩
  · exact List.forall_mem_cons.mpr ⟨hk, hs.shortcut⟩
  · intro s l key k hk
    obtain ⟨g', hg', rest⟩ := hs.filed s l key k hk
    exact ⟨g', List.mem_cons_of_mem _ hg', rest⟩
  · intro site k hk
    obtain ⟨g', hg', rest⟩ := hs.target site k hk
    exact ⟨g', List.mem_cons_of_mem _ hg', rest⟩

theorem Sane.file (hs : Sane o H) {g : Grant} {c : Caches}
    (has : H.caches.HasSpecializer g.specializer)
    (filed : H.caches.Filed c g.specializer g.shape.signature g.shortcut)
    (sound : c.Sound H.heap) :
    Sane o { H.withCaches c with grants := g :: H.grants } ∧
      Grows H { H.withCaches c with grants := g :: H.grants } := by
  have hat : ∀ site, c.siteAt site = H.caches.siteAt site := fun site => by
    rw [Caches.siteAt, Caches.siteAt, filed.sites]
  refine ⟨⟨hs.hierarchy, sound, ?_, ?_, ?_, ?_⟩, .refl _, filed.grows, List.subset_cons_self _ _⟩
  · intro g' hg'
    rcases List.mem_cons.mp hg' with rfl | hg'
    · exact lt_of_lt_of_le has filed.grows.specializers
    · exact lt_of_lt_of_le (hs.specializer g' hg') filed.grows.specializers
  · intro g' hg'
    rcases List.mem_cons.mp hg' with rfl | hg'
    · exact filed.has
    · exact lt_of_lt_of_le (hs.shortcut g' hg') filed.grows.shortcuts
  · intro s l key k hk
    rcases filed.filed s l key k hk with hold | ⟨rfl, hkey, rfl⟩
    · obtain ⟨g', hg', rest⟩ := hs.filed s l key k hold
      exact ⟨g', List.mem_cons_of_mem _ hg', rest⟩
    · exact ⟨g, List.mem_cons_self, rfl, rfl, hkey.symm⟩
  · intro site k hk
    change (c.siteAt site).target = some (.shortcut k) at hk
    rw [hat] at hk
    obtain ⟨g', hg', hgk, hshape, use⟩ := hs.target site k hk
    exact ⟨g', List.mem_cons_of_mem _ hg', hgk, hshape.trans (by rw [← hat]; rfl), use⟩

theorem Sane.afterRequest (hs : Sane o H) {s : SpecializerRef} (has : H.caches.HasSpecializer s)
    (shape : SiteShape) (t : TypeRef) :
    Sane o (H.afterRequest s shape t) ∧ Grows H (H.afterRequest s shape t) := by
  unfold History.afterRequest
  have answered := Caches.request_spec hs.sound hs.hierarchy s shape t
  cases hr : Caches.request H.heap s shape t H.caches with
  | error e c =>
    rw [hr] at answered
    cases answered with
    | failed prepares sound _ => exact hs.prepared prepares sound
  | ok answer c =>
    rw [hr] at answered
    cases answered with
    | refused prepares sound _ => exact hs.prepared prepares sound
    | @reused k _ prepares sound passed filed current =>
      obtain ⟨hc, hg⟩ := hs.prepared prepares sound
      obtain ⟨g, hin, rfl, -, -⟩ := hs.filed s _ _ k filed
      obtain ⟨hc', hg'⟩ := hc.grant (g := ⟨s, shape, t, g.shortcut⟩)
        (lt_of_lt_of_le has hg.caches.specializers) (hc.shortcut g hin)
      exact ⟨hc', hg.trans hg'⟩
    | @built k _ filed sound current right => exact hs.file (g := ⟨s, shape, t, k⟩) has filed sound

theorem Step.sane (step : Step o H K) (hs : Sane o H) : Sane o K ∧ Grows H K := by
  cases step with
  | heap change => exact hs.heap change
  | trace trace =>
    exact ⟨⟨hs.hierarchy, hs.sound, hs.specializer, hs.shortcut, hs.filed, hs.target⟩, .refl _,
      .refl _, fun _ hg => hg⟩
  | held held =>
    exact hs.prepared (.held _ held) (hs.sound.held held)
  | count s n => exact hs.prepared (Caches.count_prepares _ s n) (Caches.count_sound hs.sound s n)
  | request s shape t has => exact hs.afterRequest has shape t
  | aim site g granted shape use =>
    apply hs.setTarget site _ (by simp)
    intro k hk
    cases hk
    exact ⟨g, granted, rfl, shape, use⟩
  | plan site f =>
    refine hs.setTarget site _ ?_ (by simp)
    intro f' plan hplan
    cases hplan
    rfl
  | clear site => exact hs.setTarget site none (by simp) (by simp)
  | relaySite r => exact hs.relaySite r
  | addSpecializer settings valid => exact hs.addSpecializer settings valid
  | addSite shape => exact hs.addSite shape

theorem Reaches.sane (run : Reaches o H K) (hs : Sane o H) : Sane o K ∧ Grows H K := by
  induction run with
  | refl => exact ⟨hs, .refl H⟩
  | tail _ step ih =>
    obtain ⟨hs', hg'⟩ := step.sane ih.1
    exact ⟨hs', ih.2.trans hg'⟩

theorem Reachable.sane (hr : Reachable o H) : Sane o H := by
  obtain ⟨functions, run⟩ := hr
  exact (run.sane (sane_start o functions)).1

/-- What holds at the start and is kept by every step holds in every run. -/
theorem Reachable.invariant (hr : Reachable o H) {P : History → Prop}
    (begins : ∀ functions, P (start functions))
    (keeps : ∀ K L, Step o K L → Sane o K → P K → P L) : P H := by
  obtain ⟨functions, run⟩ := hr
  induction run with
  | refl => exact begins functions
  | tail run step ih => exact keeps _ _ step (Reaches.sane run (sane_start o functions)).1 ih

/-! ## What holds as long as the counters have not wrapped around -/

/-- A shortcut fits at most the type that it was granted for, and only while it does what the
recipe of that type says. -/
structure Current (H : History) (g : Grant) : Prop where
  version_pos : 0 < (H.caches.shortcutAt g.shortcut).version.toNat
  version_le : (H.caches.shortcutAt g.shortcut).version.toNat ≤ H.heap.versions
  right : ∀ t, H.heap.Has t →
    (H.heap.typeAt t).version = (H.caches.shortcutAt g.shortcut).version →
    t = g.type ∧ ∃ r, H.heap.recipe (H.caches.settings g.specializer) g.shape t = .ok r ∧
      H.caches.Realizes g.shape.signature (H.caches.shortcutAt g.shortcut) r

/-- Versions name types, and every grant is current. -/
structure Fresh (H : History) : Prop where
  wellFormed : H.heap.WellFormed
  current : ∀ g ∈ H.grants, Current H g

theorem fresh_start (functions : Array FunctionRecord) : Fresh (start functions) :=
  ⟨Heap.wellFormed_initial functions, fun _ hg => absurd hg List.not_mem_nil⟩

theorem Current.has {g : Grant} (hc : Current H g) {t : TypeRef}
    (hversion : (H.heap.typeAt t).version = (H.caches.shortcutAt g.shortcut).version) :
    H.heap.Has t := by
  by_contra hnot
  have hpos := hc.version_pos
  rw [← hversion, Heap.typeAt_of_not_has hnot] at hpos
  exact absurd hpos (by decide)

theorem Current.mono {g : Grant} (hs : Sane o H) (hin : g ∈ H.grants) (hc : Current H g)
    (grows : Grows H K) (tracks : H.heap.Tracks K.heap) : Current K g := by
  have hat := grows.caches.shortcutAt g.shortcut (hs.shortcut g hin)
  have hsettings := grows.caches.settings g.specializer (hs.specializer g hin)
  refine ⟨?_, ?_, ?_⟩
  · rw [hat]
    exact hc.version_pos
  · rw [hat]
    exact hc.version_le.trans grows.heap.versions
  · rw [hat, hsettings]
    intro t ht hversion
    rcases tracks t ht with kept | drawn
    · obtain ⟨htype, r, hr, realizes⟩ := hc.right t kept.has (kept.version ▸ hversion)
      refine ⟨htype, r, ?_, realizes.mono grows.caches⟩
      rw [Heap.recipe_of_lookup grows.heap hs.hierarchy kept.has kept.lookup, hr]
    -- A version drawn since is greater than that of every shortcut there was.
    · have hle := hc.version_le
      rw [hversion] at drawn
      omega

theorem Fresh.mono (hs : Sane o H) (hf : Fresh H) (grows : Grows H K) (heap : K.heap = H.heap)
    (grants : K.grants = H.grants) : Fresh K := by
  refine ⟨heap ▸ hf.wellFormed, ?_⟩
  intro g hg
  rw [grants] at hg
  exact (hf.current g hg).mono hs hg grows (heap ▸ .refl _)

theorem Current.eq_of_reused {g : Grant} (hg : Current H g) {shape : SiteShape} {t : TypeRef}
    (hversion : (H.heap.typeAt t).version = (H.caches.shortcutAt g.shortcut).version)
    (hsignature : g.shape.signature = shape.signature)
    (passed : gate (H.caches.settings g.specializer) H.heap shape t = none) :
    (⟨g.specializer, shape, t, g.shortcut⟩ : Grant) = g := by
  obtain ⟨rfl, r, hrecipe, -⟩ := hg.right t (hg.has hversion) hversion
  -- The key leaves the rest of the shape open. Passing the gate fixes it.
  have passed' := (Heap.recipe_eq_ok_iff.mp hrecipe).1
  obtain ⟨-, -, -, -, -, typed, -⟩ := Heap.gate_eq_none_iff.mp passed
  obtain ⟨-, -, -, -, -, typed', -⟩ := Heap.gate_eq_none_iff.mp passed'
  have hshape : g.shape = shape := by
    cases hgs : g.shape
    cases shape
    simp only [hgs] at hsignature typed typed'
    simp [hsignature, typed, typed']
  rw [← hshape]

theorem Fresh.current_of_recipe (hf : Fresh H) {s : SpecializerRef} {shape : SiteShape}
    {t : TypeRef} {k : ShortcutRef} {r : Recipe}
    (hversion : (H.caches.shortcutAt k).version = (H.heap.typeAt t).version)
    (hr : H.heap.recipe (H.caches.settings s) shape t = .ok r)
    (realizes : H.caches.Realizes shape.signature (H.caches.shortcutAt k) r) :
    Current H ⟨s, shape, t, k⟩ := by
  have ht := Heap.has_of_recipe hr
  refine ⟨?_, ?_, ?_⟩
  · exact hversion ▸ hf.wellFormed.version_pos t ht
  · exact hversion ▸ hf.wellFormed.version_le t ht
  · intro u hu hu'
    obtain rfl := hf.wellFormed.version_inj u t hu ht (hu'.trans hversion)
    exact ⟨rfl, r, hr, realizes⟩

/-- What a request grants is current: it was built for the version that the type has, or it was
granted before for the same type and the same shape of call. -/
theorem Fresh.afterRequest (hs : Sane o H) (hf : Fresh H) {s : SpecializerRef}
    (has : H.caches.HasSpecializer s) (shape : SiteShape) (t : TypeRef) (fits : H.heap.Fits) :
    Fresh (H.afterRequest s shape t) := by
  have grows := (hs.afterRequest has shape t).2
  unfold History.afterRequest at grows ⊢
  have answered := Caches.request_spec hs.sound hs.hierarchy s shape t
  cases hr : Caches.request H.heap s shape t H.caches with
  | error e c =>
    rw [hr] at grows
    exact hf.mono hs grows rfl rfl
  | ok answer c =>
    rw [hr] at answered grows
    cases answered with
    | refused prepares sound _ => exact hf.mono hs grows rfl rfl
    | @reused k _ prepares sound passed filed hcurrent =>
      obtain ⟨g, hin, rfl, rfl, hsignature⟩ := hs.filed s _ _ k filed
      have heq := (hf.current g hin).eq_of_reused hcurrent.symm hsignature passed
      refine ⟨hf.wellFormed, List.forall_mem_cons.mpr ⟨?_, ?_⟩⟩
      · rw [heq]
        exact (hf.current g hin).mono hs hin grows (.refl _)
      · exact fun g' hg' => (hf.current g' hg').mono hs hg' grows (.refl _)
    | @built k _ filed sound hcurrent right =>
      have hold : ∀ g ∈ H.grants, Current (H.withCaches c) g := fun g hg =>
        (hf.current g hg).mono hs hg ⟨.refl _, filed.grows, List.Subset.refl _⟩ (.refl _)
      have hf' : Fresh (H.withCaches c) := ⟨hf.wellFormed, hold⟩
      obtain ⟨r, hrecipe, realizes⟩ := right fits
      rw [← filed.grows.settings s has] at hrecipe
      have hnew := hf'.current_of_recipe hcurrent hrecipe realizes
      refine ⟨hf.wellFormed, List.forall_mem_cons.mpr ⟨?_, ?_⟩⟩
      · exact ⟨hnew.version_pos, hnew.version_le, hnew.right⟩
      · exact fun g hg => ⟨(hold g hg).version_pos, (hold g hg).version_le, (hold g hg).right⟩

theorem Step.fresh (step : Step o H K) (hs : Sane o H) (hf : Fresh H) (fits : K.heap.Fits) :
    Fresh K := by
  have grows := (step.sane hs).2
  have before := grows.heap.fits fits
  cases step with
  | heap change =>
    refine ⟨change.wellFormed hf.wellFormed fits.versions, ?_⟩
    intro g hg
    exact (hf.current g hg).mono hs hg grows (change.tracks hf.wellFormed fits.versions)
  | request s shape t has => exact hf.afterRequest hs has shape t before
  | trace | held | count | aim | plan | clear | relaySite | addSpecializer | addSite =>
    exact hf.mono hs grows rfl rfl

theorem Reachable.fresh (hr : Reachable o H) : H.heap.Fits → Fresh H := by
  refine hr.invariant (P := fun H => H.heap.Fits → Fresh H) (fun functions _ =>
    fresh_start functions) fun K L step hs fresh fits => ?_
  exact step.fresh hs (fresh ((step.sane hs).2.heap.fits fits)) fits

/-- A shortcut that is given fits the type now, and does what its recipe says. -/
theorem Reachable.granted (hr : Reachable o H) (fits : H.heap.Fits) {s : SpecializerRef}
    {shape : SiteShape} {t : TypeRef} {k : ShortcutRef} {c : Caches}
    (has : H.caches.HasSpecializer s)
    (hk : Caches.request H.heap s shape t H.caches = .ok (.ok k) c) :
    (H.heap.typeAt t).version = (c.shortcutAt k).version ∧
      ∃ r, H.heap.recipe (H.caches.settings s) shape t = .ok r ∧
        c.Realizes shape.signature (c.shortcutAt k) r := by
  have hs := hr.sane
  have fresh := (hr.fresh fits).afterRequest hs has shape t fits
  have grows := (hs.afterRequest has shape t).2.caches
  unfold History.afterRequest at fresh grows
  simp only [hk] at fresh grows
  have current := fresh.current ⟨s, shape, t, k⟩ List.mem_cons_self
  have hversion : (H.heap.typeAt t).version = (c.shortcutAt k).version := by
    have answered := Caches.request_spec hs.sound hs.hierarchy s shape t
    rw [hk] at answered
    cases answered with
    | reused prepares _ _ _ hcurrent =>
      rw [← hcurrent, Caches.shortcutAt, Caches.shortcutAt, prepares.shortcuts]
    | built _ _ hcurrent _ => exact hcurrent.symm
  obtain ⟨-, r, hrecipe, realizes⟩ := current.right t (current.has hversion) hversion
  refine ⟨hversion, r, ?_, realizes⟩
  rw [← hrecipe]
  exact congrArg (H.heap.recipe · shape t) (grows.settings s has).symm

end InlineCache.History
