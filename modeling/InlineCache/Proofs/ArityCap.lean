import InlineCache.Proofs.Service

/-! # The cap on the number of arguments

The cap is looked at when a call site asks for a shortcut. A call site that has one does not ask:
if it got the shortcut from a specializer with a higher cap, it runs it under a lower one too. -/

namespace InlineCache

def World.counters (w : World) (ctx : SpecializerRef) : Counters :=
  (w.caches.specializerAt ctx).counters

theorem Caches.counters_count {c : Caches} {ctx : SpecializerRef} (has : c.HasSpecializer ctx)
    (n : Counter) :
    ((c.count ctx n).specializerAt ctx).counters = (c.specializerAt ctx).counters.record n := by
  unfold count
  rw [specializerAt_modifySpecializer, if_pos ⟨rfl, has⟩]

theorem Caches.hasSpecializer_count {c : Caches} {s : SpecializerRef} (has : c.HasSpecializer s)
    (ctx : SpecializerRef) (n : Counter) : (c.count ctx n).HasSpecializer s :=
  has.trans_le (count_prepares c ctx n).grows.specializers

namespace Engine

open History

variable {o : Usage} {e : Engine} {relay : CallRelay} {ctx : SpecializerRef} {site : CallSiteRef}
  {t : TypeRef} {args : List Value} {w : World}

/-- Two runs that end alike, also in what is counted. -/
structure EndsAlike (r r' : EStateM.Result (Stop CallError) World Value) : Prop where
  seen : Run.seen r = Run.seen r'
  counters : (Run.world r).counters = (Run.world r').counters

theorem endsAlike_release (x : Run CallError Value) (w : World) :
    EndsAlike (Run.always x World.release w) (x w) := by
  unfold Run.always
  cases x w <;> exact ⟨rfl, rfl⟩

theorem request_of_gate {h : Heap} {shape : SiteShape} {c : Caches} {reason : Refusal}
    (hgate : gate (c.settings ctx) h shape t = some reason) :
    Caches.request h ctx shape t c = .ok (.error reason) (c.count ctx .ineligible) := by
  unfold Caches.request
  rw [hgate]

/-- The caches once the gate has refused the type and the general protocol takes over. -/
def refused (c : Caches) (ctx : SpecializerRef) (site : CallSiteRef) : Caches :=
  (((c.count ctx .misses).count ctx .ineligible).setTarget site none).count ctx .fallbacks

theorem update_of_gate {reason : Refusal} (has : w.caches.HasSpecializer ctx)
    (hgate : gate (w.caches.settings ctx) w.heap (w.caches.siteAt site).shape t = some reason) :
    e.update relay ctx site (.type t) args w =
      e.general (w.caches.siteAt site).shape.signature (.type t) args
        { w with caches := refused w.caches ctx site } := by
  rw [← (Caches.count_prepares w.caches ctx .misses).grows.settings ctx has] at hgate
  have hupdate : e.updateForType relay ctx site (w.caches.siteAt site).shape t args
      { w with caches := w.caches.count ctx .misses } =
      .ok none { w with caches :=
        ((w.caches.count ctx .misses).count ctx .ineligible).setTarget site none } := by
    rw [updateForType_apply, request_of_gate hgate]
  change (e.updateForType relay ctx site (w.caches.siteAt site).shape t args >>= _)
    { w with caches := w.caches.count ctx .misses } = _
  rw [Run.bind_apply, hupdate]
  rfl

theorem gate_of_above {settings : Settings} {h : Heap} {shape : SiteShape}
    (above : settings.maxArity < shape.signature.arity) (t : TypeRef) :
    ∃ reason, gate settings h shape t = some reason := by
  apply Option.ne_none_iff_exists'.mp
  intro hgate
  obtain ⟨-, -, -, -, hcap, -⟩ := Heap.gate_eq_none_iff.mp hgate
  omega

/-- Nothing has run yet, and these were counted. -/
structure Counted (ctx : SpecializerRef) (ns : List Counter) (w w' : World) : Prop where
  heap : w'.heap = w.heap
  trace : w'.trace = w.trace
  counters : w'.counters ctx = ns.foldl Counters.record (w.counters ctx)

theorem counted_refused {c : Caches} (has : w.caches.HasSpecializer ctx)
    (hc : c.specializers = w.caches.specializers) :
    Counted ctx [.misses, .ineligible, .fallbacks] w { w with caches := refused c ctx site } := by
  have hat : ∀ s, c.specializerAt s = w.caches.specializerAt s := fun s => by
    rw [Caches.specializerAt, Caches.specializerAt, hc]
  have has : c.HasSpecializer ctx := by rwa [Caches.HasSpecializer, hc]
  have has₁ := Caches.hasSpecializer_count has ctx .misses
  have has₂ := Caches.hasSpecializer_count has₁ ctx .ineligible
  refine ⟨rfl, rfl, ?_⟩
  calc ((refused c ctx site).specializerAt ctx).counters
      = (((c.count ctx .misses).count ctx .ineligible).specializerAt ctx).counters.record
          .fallbacks := Caches.counters_count has₂ .fallbacks
    _ = _ := by
      rw [Caches.counters_count has₁, Caches.counters_count has, hat]
      rfl

/-- A target that is good for a call was granted where the cap allows so many arguments. -/
theorem cap_of_hit {H : History} (hr : Reachable o H) (fits : H.heap.Fits) {k : ShortcutRef}
    {n : Nat} (hit : H.world.Hits site k t n) :
    ∃ s, o site s ∧ (H.caches.siteAt site).shape.signature.arity ≤
      (H.caches.settings s).maxArity := by
  obtain ⟨htarget, hmatch⟩ := hit
  obtain ⟨g, hg, rfl, hshape, use⟩ := hr.sane.target site k htarget
  have current := (hr.fresh fits).current g hg
  obtain ⟨hversion, -⟩ := matches?_eq_some_iff.mp hmatch
  obtain ⟨-, r, hrecipe, -⟩ := current.right t (current.has hversion) hversion
  obtain ⟨hgate, -⟩ := Heap.recipe_eq_ok_iff.mp hrecipe
  obtain ⟨-, -, -, -, hcap, -⟩ := Heap.gate_eq_none_iff.mp hgate
  exact ⟨g.specializer, use, hshape ▸ hcap⟩

/-! ## Main theorem -/

/-- A call of a type with more arguments than the cap allows. If the target of the call site is no
good for it, the general protocol serves the call, and no fast hit is counted for it. If it is good,
which takes another specializer with a higher cap, the shortcut runs and a fast hit is counted. -/
theorem call_above_cap {H : History} (hr : Reachable o H) (fits : H.heap.Fits)
    (has : H.caches.HasSpecializer ctx)
    (hargs : args.length = (H.caches.siteAt site).shape.signature.arity)
    (enabled : (H.caches.settings ctx).enabled = true)
    (above : (H.caches.settings ctx).maxArity < (H.caches.siteAt site).shape.signature.arity) :
    ((∀ k, ¬ H.world.Hits site k t args.length) →
      ∃ w, Counted ctx [.misses, .ineligible, .fallbacks] H.world w ∧
        EndsAlike (e.invoke ctx site (.type t) args H.world)
          (e.general (H.caches.siteAt site).shape.signature (.type t) args w)) ∧
    ∀ k, H.world.Hits site k t args.length →
      (∃ s ≠ ctx, o site s ∧ (H.caches.siteAt site).shape.signature.arity ≤
        (H.caches.settings s).maxArity) ∧
      ∃ w, Counted ctx [.fastHits] H.world w ∧
        EndsAlike (e.invoke ctx site (.type t) args H.world)
          (e.runShortcut (e.callRelay ctx) (H.caches.shortcutAt k) t args w) := by
  obtain ⟨reason, hgate⟩ := gate_of_above (h := H.heap) above t
  constructor
  · intro nohit
    rcases invoke_of_no_hit (e := e) hargs enabled nohit with heq | ⟨k, heq⟩
    · refine ⟨{ H.world with caches := refused H.caches ctx site }, counted_refused has rfl, ?_⟩
      rw [heq, update_of_gate has hgate]
      exact ⟨rfl, rfl⟩
    · refine ⟨{ H.world with caches := refused (H.caches.hold k) ctx site },
        counted_refused has rfl, ?_⟩
      have hupdate : e.update (e.callRelay ctx) ctx site (.type t) args (H.world.hold k) = _ :=
        update_of_gate (w := H.world.hold k) has hgate
      rw [heq, always_congr hupdate]
      exact endsAlike_release _ _
  · intro k hit
    constructor
    · obtain ⟨s, use, hcap⟩ := cap_of_hit hr fits hit
      refine ⟨s, ?_, use, hcap⟩
      rintro rfl
      omega
    · refine ⟨{ H.world with caches := (H.caches.hold k).count ctx .fastHits },
        ⟨rfl, rfl, Caches.counters_count (c := H.caches.hold k) has .fastHits⟩, ?_⟩
      rw [invoke_of_hit hargs enabled hit]
      exact endsAlike_release _ _

/-! ## A call site that two specializers share -/

/-- The `__init__` of the class takes one argument. Specializer 1 allows none. -/
def sharedSite : History :=
  let H := opening #[⟨"__init__", ["self", "x"], false⟩] sampleClass { signature := .plain 1 }
  H.withCaches (H.caches.addSpecializer (.fresh { maxArity := 0 } (by decide))).2

theorem sharedSite_reachable (o : Usage) : Reachable o sharedSite := by
  obtain ⟨functions, run⟩ := opening_reachable o #[⟨"__init__", ["self", "x"], false⟩]
    (c := sampleClass) rfl rfl { signature := .plain 1 }
  exact ⟨functions, run.tail (.addSpecializer { maxArity := 0 } (by decide))⟩

/-- A call in the context of specializer 0 gave the call site a shortcut. -/
def sharedSiteWarm : World := warm sharedSite ⟨1⟩ [.none]

theorem sharedSiteWarm_reachable :
    ∃ H, Reachable (fun _ _ => True) H ∧ H.world = sharedSiteWarm :=
  warm_reachable (sharedSite_reachable _) (by decide) (by decide) ⟨1⟩ [.none]

theorem sharedSite_above_cap :
    (∃ w, Counted ⟨1⟩ [.misses, .ineligible, .fallbacks] sharedSite.world w ∧
      EndsAlike ((constant .none).invoke ⟨1⟩ ⟨0⟩ (.type ⟨1⟩) [.none] sharedSite.world)
        ((constant .none).general (.plain 1) (.type ⟨1⟩) [.none] w)) ∧
    ∃ w, Counted ⟨1⟩ [.fastHits] sharedSiteWarm w ∧
      EndsAlike ((constant .none).invoke ⟨1⟩ ⟨0⟩ (.type ⟨1⟩) [.none] sharedSiteWarm)
        ((constant .none).runShortcut ((constant .none).callRelay ⟨1⟩)
          (sharedSiteWarm.caches.shortcutAt ⟨0⟩) ⟨1⟩ [.none] w) := by
  constructor
  · have hr := sharedSite_reachable fun _ _ => True
    refine (call_above_cap hr (by decide +kernel) (by decide +kernel) (by decide +kernel)
      (by decide +kernel) (by decide +kernel)).1 ?_
    rintro k ⟨htarget, -⟩
    have hnone : (sharedSite.world.caches.siteAt ⟨0⟩).target = none := rfl
    simp [hnone] at htarget
  · obtain ⟨H, hr, hH⟩ := sharedSiteWarm_reachable
    have before : sharedSiteWarm.heap.Fits ∧ sharedSiteWarm.caches.HasSpecializer ⟨1⟩ ∧
        (sharedSiteWarm.caches.siteAt ⟨0⟩).shape.signature = .plain 1 ∧
        sharedSiteWarm.caches.settings ⟨1⟩ = { maxArity := 0 } ∧
        sharedSiteWarm.Hits ⟨0⟩ ⟨0⟩ ⟨1⟩ 1 := by
      unfold World.Hits
      decide +kernel
    rw [← hH] at before ⊢
    obtain ⟨fits, has, signature, settings, hit⟩ := before
    have hargs : [Value.none].length = (H.caches.siteAt ⟨0⟩).shape.signature.arity := by
      rw [signature]
      rfl
    exact ((call_above_cap hr fits has hargs (by rw [settings])
      (by rw [settings, signature]; decide)).2 ⟨0⟩ hit).2

theorem sharedSite_breaks_cap :
    ∃ H : History, Reachable (fun _ _ => True) H ∧ (H.caches.settings ⟨1⟩).enabled = true ∧
      (H.caches.settings ⟨1⟩).maxArity < (H.caches.siteAt ⟨0⟩).shape.signature.arity ∧
      ((Run.world ((constant .none).invoke ⟨1⟩ ⟨0⟩ (.type ⟨1⟩) [.none] H.world)).counters ⟨1⟩) =
        (H.world.counters ⟨1⟩).record .fastHits := by
  obtain ⟨H, hr, hH⟩ := sharedSiteWarm_reachable
  refine ⟨H, hr, ?_⟩
  rw [History.caches, hH]
  decide +kernel

end Engine

end InlineCache
