import InlineCache.Proofs.Story

/-! # Specializers that are disabled

A specializer that is disabled caches nothing. Calls in its context take the general way and leave
it to others what a call site has as its target. -/

namespace InlineCache

/-! ## Nothing is cached -/

/-- Nothing was ever cached, and nothing that was cached was used. -/
structure Specializer.Inert (p : Specializer) : Prop where
  shelves : p.shelves = ∅
  relays : p.relays = ∅
  siteBuilds : p.counters.siteBuilds = 0
  cacheReuses : p.counters.cacheReuses = 0
  allocatorBuilds : p.counters.allocatorBuilds = 0
  adapterBuilds : p.counters.adapterBuilds = 0
  fastHits : p.counters.fastHits = 0

namespace Specializer

variable {p : Specializer}

theorem inert_fresh (settings : Settings) (valid : settings.Valid) : (fresh settings valid).Inert :=
  ⟨rfl, rfl, rfl, rfl, rfl, rfl, rfl⟩

theorem Inert.record (inert : p.Inert) {n : Counter}
    (hn : n = .ineligible ∨ n = .misses ∨ n = .fallbacks) :
    { p with counters := p.counters.record n }.Inert := by
  obtain ⟨shelves, relays, builds, reuses, allocators, adapters, hits⟩ := inert
  rcases hn with rfl | rfl | rfl <;>
    exact ⟨shelves, relays, builds, reuses, allocators, adapters, hits⟩

end Specializer

/-- If the specializer is disabled, it is inert. -/
def World.Inert (w : World) (s : SpecializerRef) : Prop :=
  (w.caches.settings s).enabled = false → (w.caches.specializerAt s).Inert

namespace Story

variable {w w' : World} {l : List Event} {s ctx : SpecializerRef} {n : Counter}

theorem inert_of_specializers (inert : w.Inert s)
    (same : w'.caches.specializers = w.caches.specializers) : w'.Inert s := by
  unfold World.Inert Caches.settings
  rw [Caches.specializerAt_congr same]
  exact inert

theorem inert_counted (inert : w.Inert s)
    (hn : ctx = s → (w.caches.settings s).enabled = false →
      n = .ineligible ∨ n = .misses ∨ n = .fallbacks) : (w.counted ctx n).Inert s := by
  intro off
  rw [World.counted, Caches.settings_count] at off
  unfold World.counted Caches.count
  rw [Caches.specializerAt_modifySpecializer]
  split
  · rename_i hs
    exact (inert off).record (hn hs.1 off)
  · exact inert off

theorem stays_inert (story : Story w l w') (inert : w.Inert s) : w'.Inert s := by
  induction story with
  | aside same => exact inert_of_specializers inert same
  | addSpecializer w settings valid =>
    unfold World.Inert Caches.settings
    rw [Caches.specializerAt_addSpecializer]
    split
    · exact fun _ => Specializer.inert_fresh settings valid
    · exact inert
  | miss w ctx => exact inert_counted inert fun _ _ => Or.inr (Or.inl rfl)
  | bypass w ctx off => exact inert_counted inert fun _ _ => Or.inr (Or.inr rfl)
  | @request w p has shape t =>
    obtain ⟨answer, c, n, hreq, counts, -, refuses⟩ := Caches.request_counts has w.heap shape t
    unfold World.requested
    rw [hreq]
    by_cases hs : s = p
    · subst hs
      intro off
      have before : (w.caches.settings s).enabled = false := by rwa [← counts.settings]
      obtain ⟨-, rfl⟩ := refuses before
      have counted : (w.counted s .ineligible).Inert s := inert_counted inert fun _ _ => Or.inl rfl
      exact counted off
    · unfold World.Inert Caches.settings
      dsimp only [Caches.final_ok]
      rw [counts.other s hs]
      exact inert
  | @call e depth ctx site callee args w w₁ asked inside n x has dispatches earlier once way later
      ends before served =>
    refine inert_of_specializers (served (inert_counted (before inert) ?_)) ends
    rintro rfl off
    rw [earlier.settings_kept has] at off
    cases way with
    | hit on => simp [on] at off
    | fallback => exact Or.inr (Or.inr rfl)
  | trans _ _ first next => exact next (first inert)

end Story

/-! ## Calls in a context that is disabled -/

namespace Engine

open History

variable {o : Usage} {B : Prop} {e : Engine} {H K : History} {ctx : SpecializerRef}
  {site : CallSiteRef} {t : TypeRef} {args : List Value} {w w' : World} {k : ShortcutRef}

/-- All that the specializer did was to count one fallback, and to refuse the type if it was asked
for a shortcut. A shortcut that the call site has as its target stays. -/
structure Declines (ctx : SpecializerRef) (site : CallSiteRef) (w w' : World) : Prop where
  counted : Counted ctx [.fallbacks] w w' ∨ Counted ctx [.misses, .ineligible, .fallbacks] w w'
  own : ∃ counters, w'.caches.specializerAt ctx = { w.caches.specializerAt ctx with counters }
  others : ∀ s ≠ ctx, w'.caches.specializerAt s = w.caches.specializerAt s
  shortcuts : w'.caches.shortcuts = w.caches.shortcuts
  relays : w'.caches.relays = w.caches.relays
  sites : ∀ p ≠ site, w'.caches.siteAt p = w.caches.siteAt p
  target : ∀ k, (w.caches.siteAt site).target = some (.shortcut k) →
    w'.caches.siteAt site = w.caches.siteAt site

theorem specializerAt_count_of_ne (c : Caches) {s : SpecializerRef} (hs : s ≠ ctx) (n : Counter) :
    (c.count ctx n).specializerAt s = c.specializerAt s := by
  unfold Caches.count
  rw [Caches.specializerAt_modifySpecializer, if_neg fun both => hs both.1.symm]

theorem declines_hold (has : w.caches.HasSpecializer ctx) (k : ShortcutRef) (site : CallSiteRef) :
    Declines ctx site w ((w.hold k).counted ctx .fallbacks) :=
  ⟨Or.inl ⟨rfl, rfl, Caches.counters_count has .fallbacks⟩,
    (Caches.Tallied.count w.caches ctx .fallbacks).specializer ctx,
    fun _ hs => specializerAt_count_of_ne w.caches hs .fallbacks, rfl, rfl, fun _ _ => rfl,
    fun _ _ => rfl⟩

theorem declines_refused (has : w.caches.HasSpecializer ctx)
    (target : ∀ k, (w.caches.siteAt site).target ≠ some (.shortcut k)) :
    Declines ctx site w { w with caches := refused w.caches ctx site } := by
  let asked := (w.caches.count ctx .misses).count ctx .ineligible
  have tallied : w.caches.Tallied asked :=
    (Caches.Tallied.count _ ctx .misses).trans (.count _ ctx _)
  refine ⟨Or.inr (counted_refused has rfl), ?_, fun s hs => ?_, rfl, rfl, fun p hp => ?_,
    fun k hk => absurd hk (target k)⟩
  · obtain ⟨_, first⟩ := tallied.specializer ctx
    obtain ⟨counters, last⟩ : ∃ counters, (refused w.caches ctx site).specializerAt ctx =
        { asked.specializerAt ctx with counters } :=
      (Caches.Tallied.count (asked.setTarget site none) ctx .fallbacks).specializer ctx
    exact ⟨counters, by rw [last, first]⟩
  · exact (specializerAt_count_of_ne (asked.setTarget site none) hs .fallbacks).trans
      ((specializerAt_count_of_ne _ hs .ineligible).trans (specializerAt_count_of_ne _ hs .misses))
  · exact (Caches.siteAt_setTarget asked site p none).trans (if_neg fun both => hp both.1.symm)

theorem invoke_of_disabled (e : Engine) (has : w.caches.HasSpecializer ctx)
    (off : (w.caches.settings ctx).enabled = false) (t : TypeRef)
    (hargs : args.length = (w.caches.siteAt site).shape.signature.arity) :
    ∃ w', Declines ctx site w w' ∧ ∃ f, (f = id ∨ f = World.release) ∧
      e.invoke ctx site (.type t) args w =
        Run.always (e.general (w.caches.siteAt site).shape.signature (.type t) args) f w' := by
  have hgate : gate (w.caches.settings ctx) w.heap (w.caches.siteAt site).shape t =
      some .disabled := by
    unfold gate
    simp [off]
  have plain (x : Run CallError Value) (w : World) : x w = Run.always x id w := by
    unfold Run.always
    cases x w <;> rfl
  have declines (target : ∀ k, (w.caches.siteAt site).target ≠ some (.shortcut k)) :
      Declines ctx site w { w with caches := refused w.caches ctx site } :=
    declines_refused has target
  unfold invoke
  rw [invokeWith_eq e _ ctx _ hargs]
  cases htarget : (w.caches.siteAt site).target with
  | none =>
    refine ⟨_, declines fun k hk => by simp [htarget] at hk, id, Or.inl rfl, ?_⟩
    rw [← plain]
    exact update_of_gate has hgate
  | some target =>
    cases target with
    | function f plan =>
      refine ⟨_, declines fun k hk => by simp [htarget] at hk, id, Or.inl rfl, ?_⟩
      dsimp only
      rw [← plain, if_neg (by simp)]
      exact update_of_gate has hgate
    | shortcut k =>
      refine ⟨_, declines_hold has k site, World.release, Or.inr rfl, ?_⟩
      simp only [off]
      rfl

/-! ## The target of the call site -/

theorem Declines.leaves (declines : Declines ctx site w w')
    (leaves : ∀ E, LeavesTarget site (e.run E)) (s : Signature) {f : World → World}
    (hf : f = id ∨ f = World.release)
    (htarget : (w.caches.siteAt site).target = some (.shortcut k)) :
    ((Run.world (Run.always (e.general s (.type t) args) f w')).caches.siteAt site).target =
      some (.shortcut k) := by
  have general := general_closed (leavesTarget_closed site) (fun E w =>
    leaves E { w with trace := w.trace.push E }) s (.type t) args w'
  rw [world_always]
  have same : ∀ v, ((f v).caches.siteAt site).target = (v.caches.siteAt site).target := by
    rcases hf with rfl | rfl <;> exact fun _ => rfl
  rw [same, general, declines.target k htarget, htarget]

/-- Whenever the call site still has the shortcut as its target, and the type the version that it
had in `H`, a call of the type in a context that is enabled is a hit: the shortcut is run, and no
other is asked for. -/
def HitsAfter (o : Usage) (H L : History) (site : CallSiteRef) (k : ShortcutRef) (t : TypeRef)
    (argc : Nat) : Prop :=
  ∀ K, Reaches o L K → (K.caches.siteAt site).target = some (.shortcut k) →
    (K.heap.typeAt t).version = (H.heap.typeAt t).version →
    ∀ (e : Engine) ctx args, (K.caches.settings ctx).enabled = true → args.length = argc →
      e.invoke ctx site (.type t) args K.world =
        Run.always (e.runShortcut (e.callRelay ctx) (H.caches.shortcutAt k) t args) World.release
          ((K.world.hold k).counted ctx .fastHits)

theorem hitsAfter_of_hit (hr : Reachable o H) {L : History} (run : Reaches o H L)
    (hsite : H.caches.HasSite site)
    (hargs : args.length = (H.caches.siteAt site).shape.signature.arity)
    (hit : H.world.Hits site k t args.length) : HitsAfter o H L site k t args.length := by
  obtain ⟨htarget, hmatch⟩ := hit
  obtain ⟨hversion, harity⟩ := matches?_eq_some_iff.mp hmatch
  obtain ⟨g, hg, rfl, -⟩ := hr.sane.target site k htarget
  intro K run' htarget' same e ctx args' enabled hlen
  have grows := (hr.grows (run.trans run')).caches
  have hat := grows.shortcutAt g.shortcut (hr.sane.shortcut g hg)
  have hargs' : args'.length = (K.caches.siteAt site).shape.signature.arity := by
    rw [hlen, hargs, grows.shape site hsite]
  have hmatch' : matches? K.world (K.caches.shortcutAt g.shortcut) (.type t) args'.length =
      some t := by
    rw [hat]
    exact matches?_eq_some_iff.mpr ⟨same.trans hversion, hlen.trans harity⟩
  have hhit := invoke_of_hit (e := e) hargs' enabled ⟨htarget', hmatch'⟩
  rwa [show K.world.caches.shortcutAt g.shortcut = _ from hat] at hhit

/-! ## Main theorem -/

/-- A specializer that is disabled has cached nothing, whatever specializers the run asked for
shortcuts and whatever contexts its call sites were called in. A call of a type in its context
counts one fallback and goes the general way, also where the call site has a shortcut as its target.
It ends as the general way does from the same state, unless bodies look at what is cached. It leaves
that target alone. So as long as the type does not change, a later call in a context that is enabled
is a hit. -/
theorem disabled_stays_inert {w₀ : World} {past : List Event} (run : Story w₀ past H.world)
    (idle : w₀.Inert ctx) (hr : Reachable o H) (has : H.caches.HasSpecializer ctx)
    (off : (H.caches.settings ctx).enabled = false) :
    (H.caches.specializerAt ctx).Inert ∧
    ∀ (e : Engine) (B : Prop), Bodies o H.caches B e → ∀ site, H.caches.HasSite site → o site ctx →
      ∀ t args, args.length = (H.caches.siteAt site).shape.signature.arity →
      let call := e.invoke ctx site (.type t) args
      let general := e.general (H.caches.siteAt site).shape.signature (.type t) args
      (∃ w, Declines ctx site H.world w ∧
        ∃ f, (f = id ∨ f = World.release) ∧ call H.world = Run.always general f w) ∧
      (B → Agree (call H.world) (general H.world)) ∧
      (e.Told H.caches.specializers.size →
        ((Run.world (call H.world)).caches.specializerAt ctx).Inert) ∧
      ∀ k, (H.caches.siteAt site).target = some (.shortcut k) →
        (∀ E, LeavesTarget site (e.run E)) →
        ∃ L, Reaches o H L ∧ L.world = Run.world (call H.world) ∧
          (L.caches.siteAt site).target = some (.shortcut k) ∧
          (H.world.Hits site k t args.length → HitsAfter o H L site k t args.length) := by
  have inert := run.stays_inert idle
  refine ⟨inert off, ?_⟩
  intro e B bodies site hsite use t args hargs call general
  have start : From o H.caches H := ⟨hr, .refl _⟩
  have lands : Lands o H (Run.world (call H.world)) :=
    invoke_lands bodies start has hsite use (.type t) args
  obtain ⟨w, declines, f, hf, heq⟩ := invoke_of_disabled e has off t hargs
  refine ⟨⟨w, declines, f, hf, heq⟩, fun b => ?_, fun told => ?_, fun k htarget leaves => ?_⟩
  · have alike : Alike o H.caches H H := ⟨start, start, rfl, rfl⟩
    have steady := general_steady bodies (H.caches.siteAt site).shape.signature (.type t) args
    have cut : ¬ H.world.CutsShort ctx site t args.length := fun ⟨on, _⟩ => by
      rw [show H.world.caches.settings ctx = H.caches.settings ctx from rfl, off] at on
      simp at on
    apply alike.agree_of_fits lands (steady.moves H start)
    exact fun fits => (invoke_ends hr fits hargs has cut).agree steady b alike
  · obtain ⟨l, story⟩ := invoke_told told has site (.type t) args H.world le_rfl
    refine story.stays_inert inert ?_
    rw [story.settings_kept has]
    exact off
  · obtain ⟨L, run', hL⟩ := lands
    refine ⟨L, run', hL, ?_, hitsAfter_of_hit hr run' hsite hargs⟩
    have left : ((Run.world (Run.always general f w)).caches.siteAt site).target =
        some (.shortcut k) := declines.leaves leaves _ hf htarget
    rw [← heq] at left
    rw [show L.caches = L.world.caches from rfl, hL]
    exact left

/-! ## A call site that got its target elsewhere -/

/-- Specializer 1 is disabled. -/
def switchedOff : History :=
  let H := opening #[⟨"__init__", ["self"], false⟩] sampleClass { signature := .plain 0 }
  H.withCaches (H.caches.addSpecializer (.fresh { enabled := false } (by decide))).2

theorem switchedOff_reachable (o : Usage) : Reachable o switchedOff := by
  obtain ⟨functions, run⟩ := opening_reachable o #[⟨"__init__", ["self"], false⟩]
    (c := sampleClass) rfl rfl { signature := .plain 0 }
  exact ⟨functions, run.tail (.addSpecializer { enabled := false } (by decide))⟩

/-- A call in the context of specializer 0 gave the call site a shortcut. -/
def switchedOffWarm : World := warm switchedOff ⟨1⟩ []

theorem switchedOff_stays_inert :
    ∃ H : History, Reachable (fun _ _ => True) H ∧ H.world = switchedOffWarm ∧
      (H.caches.specializerAt ⟨1⟩).Inert ∧
      (∃ w, Declines ⟨1⟩ ⟨0⟩ H.world w ∧ ∃ f, (f = id ∨ f = World.release) ∧
        (constant .none).invoke ⟨1⟩ ⟨0⟩ (.type ⟨1⟩) [] H.world =
          Run.always ((constant .none).general (.plain 0) (.type ⟨1⟩) []) f w) ∧
      ∃ L, Reaches (fun _ _ => True) H L ∧
        (L.caches.siteAt ⟨0⟩).target = some (.shortcut ⟨0⟩) ∧
        HitsAfter (fun _ _ => True) H L ⟨0⟩ ⟨0⟩ ⟨1⟩ 0 := by
  obtain ⟨H, hr, hH⟩ := warm_reachable (switchedOff_reachable _) (by decide +kernel)
    (by decide +kernel) ⟨1⟩ []
  have facts : switchedOffWarm.caches.HasSpecializer ⟨1⟩ ∧ switchedOffWarm.caches.HasSite ⟨0⟩ ∧
      (switchedOffWarm.caches.settings ⟨1⟩).enabled = false ∧
      (switchedOffWarm.caches.siteAt ⟨0⟩).shape.signature = .plain 0 ∧
      switchedOffWarm.Hits ⟨0⟩ ⟨0⟩ ⟨1⟩ 0 := by
    unfold World.Hits
    decide +kernel
  rw [switchedOffWarm, ← hH] at facts
  obtain ⟨has, hsite, off, signature, hit⟩ := facts
  have told : Engine.Told (constant .none) switchedOff.world.caches.specializers.size :=
    fun _ => (Run.told_closed _).pure _
  have shared : SpecializerRef.shared.index < switchedOff.world.caches.specializers.size := by
    decide +kernel
  obtain ⟨past, run⟩ := invoke_told told shared ⟨0⟩ (.type ⟨1⟩) [] switchedOff.world le_rfl
  rw [show Run.world _ = H.world from hH.symm] at run
  have idle : switchedOff.world.Inert ⟨1⟩ := fun _ => Specializer.inert_fresh _ (by decide)
  have bodies : Bodies (fun _ _ => True) H.caches True (constant .none) := constant_bodies .none
  have signature : (H.caches.siteAt ⟨0⟩).shape.signature = .plain 0 := signature
  have hargs : ([] : List Value).length = (H.caches.siteAt ⟨0⟩).shape.signature.arity := by
    rw [signature]
    rfl
  obtain ⟨inert, calls⟩ := disabled_stays_inert run idle hr has off
  obtain ⟨general, -, -, stays⟩ := calls _ _ bodies ⟨0⟩ hsite trivial ⟨1⟩ [] hargs
  obtain ⟨L, run', -, htarget, hits⟩ := stays ⟨0⟩ hit.1 fun _ _ => rfl
  rw [signature] at general
  exact ⟨H, hr, hH, inert, general, L, run', htarget, hits hit⟩

end Engine

end InlineCache
