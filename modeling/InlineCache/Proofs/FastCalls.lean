import InlineCache.Proofs.Eligibility
import InlineCache.Proofs.FastLane
import InlineCache.Proofs.Initialization

/-! # Calls of an eligible type are fast hits

The first call of a type that is eligible gives the call site a shortcut, unless it has a good one.
That call is a fast hit already, and so are all that follow. -/

namespace InlineCache

namespace Counters

variable {a b c : Counters} {n m m' : Nat}

/-- From one to the other so many fast hits were counted, no fallback, and at most one shortcut
built, two relays made and so many misses. -/
structure FastCalls (n m : Nat) (a b : Counters) : Prop where
  fastHits : b.fastHits = a.fastHits + .ofNat n
  fallbacks : b.fallbacks = a.fallbacks
  siteBuilds : ∃ i ≤ 1, b.siteBuilds = a.siteBuilds + .ofNat i
  adapterBuilds : ∃ i ≤ 2, b.adapterBuilds = a.adapterBuilds + .ofNat i
  misses : ∃ i ≤ m, b.misses = a.misses + .ofNat i

theorem FastCalls.refl (a : Counters) : FastCalls 0 0 a a := by
  refine ⟨?_, rfl, ⟨0, Nat.zero_le 1, ?_⟩, ⟨0, Nat.zero_le 2, ?_⟩, ⟨0, le_rfl, ?_⟩⟩ <;> simp

theorem FastCalls.mono (fast : FastCalls n m a b) (hm : m ≤ m') : FastCalls n m' a b := by
  obtain ⟨i, hi, misses⟩ := fast.misses
  exact { fast with misses := ⟨i, hi.trans hm, misses⟩ }

end Counters

open Counters

/-- A shortcut has two relays at most, so calls on an open lane miss at most twice. -/
theorem FastLane.Keeps.fastCalls {l : FastLane} {w w' : World} {n m : Nat} {a : Counters}
    (kept : l.Keeps n w w') (before : FastCalls 0 m a (w.counters l.ctx)) :
    FastCalls n (m + 2) a (w'.counters l.ctx) := by
  obtain ⟨i, hi, misses⟩ := before.misses
  obtain ⟨j, hj, hcounters⟩ := kept.counted
  have few : l.cold w ≤ 2 := (Caches.cold_le_length _ _).trans (Caches.length_relays_le _)
  rw [hcounters]
  refine ⟨?_, before.fallbacks, before.siteBuilds, before.adapterBuilds, i + j, by omega, ?_⟩
  · dsimp only
    rw [before.fastHits]
    simp
  · dsimp only
    rw [misses, UInt64.ofNat_add, UInt64.add_assoc]

/-! ## The first call -/

theorem Caches.Realizes.relaysTo {c : Caches} {s : Signature} {k : Shortcut} {r : Recipe}
    (realizes : c.Realizes s k r) {p : RelayRef} (hp : p ∈ k.relays) :
    ∃ f, c.RelaysTo p f s.withReceiver := by
  obtain ⟨-, maker, initializer⟩ := realizes
  rcases Shortcut.mem_relays_iff.mp hp with made | initialized
  · rw [made] at maker
    generalize r.maker = m at maker
    cases maker with
    | relay calls => exact ⟨_, calls⟩
  · rw [initialized] at initializer
    generalize r.initializer = f at initializer
    cases initializer with
    | some calls => exact ⟨_, calls⟩

theorem Caches.request_fastCalls {c c' : Caches} {s : SpecializerRef} (has : c.HasSpecializer s)
    {h : Heap} {shape : SiteShape} {t : TypeRef} {answer : Except Refusal ShortcutRef}
    (hreq : request h s shape t (c.count s .misses) = .ok answer c') :
    FastCalls 0 1 (c.counters s) (c'.counters s) := by
  have has₁ := Caches.hasSpecializer_count has s .misses
  have missed : (c.count s .misses).counters s = (c.counters s).record .misses := by
    rw [counters_record, if_pos ⟨rfl, has⟩]
  have hires := request_hires h s shape t (c.count s .misses)
  obtain ⟨answer', c'', n, hreq', counts, hn, -⟩ := request_counts has₁ h shape t
  rw [hreq] at hreq' hires
  cases hreq'
  obtain ⟨i, j, hcounters⟩ := counts.counters
  obtain ⟨k, hk, built⟩ := hires.built
  rw [missed] at hcounters built
  have builds : ∃ i ≤ 1, (c'.counters s).siteBuilds = (c.counters s).siteBuilds + .ofNat i := by
    rcases hn with rfl | ⟨-, rfl | rfl⟩
    · exact ⟨0, Nat.zero_le 1, by simp [hcounters, Counters.record]⟩
    · exact ⟨1, le_rfl, by simp [hcounters, Counters.record]⟩
    · exact ⟨0, Nat.zero_le 1, by simp [hcounters, Counters.record]⟩
  refine ⟨?_, ?_, builds, ⟨k, hk, built⟩, 1, le_rfl, ?_⟩
  all_goals
    rw [hcounters]
    rcases hn with rfl | ⟨-, rfl | rfl⟩ <;> simp [Counters.record]

theorem Heap.Eligible.recipe {settings : Settings} {h : Heap} {shape : SiteShape} {t : TypeRef}
    (eligible : h.Eligible settings shape t) (valid : settings.Valid) :
    ∃ r, h.recipe settings shape t = .ok r := by
  rcases recipe_cases valid h shape t with ⟨found, -⟩ | ⟨reason, -, hfirst⟩
  · exact found
  · rw [eligible_iff.mp eligible] at hfirst
    cases hfirst

namespace Engine

open History

variable {o : Usage} {e : Engine} {H K : History} {ctx : SpecializerRef} {site : CallSiteRef}
  {t : TypeRef} {k : ShortcutRef} {args : List Value} {n : Nat}

theorem open_of_hit (hr : Reachable o K) (fits : K.heap.Fits) (has : K.caches.HasSpecializer ctx)
    (hsite : K.caches.HasSite site) (enabled : (K.caches.settings ctx).enabled = true)
    (own : ∀ r, (K.caches.relayAt r).site ≠ some site)
    (hn : n = (K.caches.siteAt site).shape.signature.arity) (hit : K.world.Hits site k t n) :
    FastLane.Open ⟨ctx, site, k, K.caches.shortcutAt k, t⟩ K.world := by
  obtain ⟨htarget, hmatch⟩ := hit
  obtain ⟨g, hg, rfl, -⟩ := hr.sane.target site k htarget
  have current := (hr.fresh fits).current g hg
  obtain ⟨hversion, harity⟩ := matches?_eq_some_iff.mp hmatch
  obtain ⟨-, r, -, realizes⟩ := current.right t (current.has hversion) hversion
  refine ⟨has, enabled, hsite, hn.symm.trans harity, htarget, hr.sane.shortcut g hg, rfl,
    current.has hversion, hversion, fun r hr => ?_, fun r s hs => ?_, hr.unshared⟩
  · obtain ⟨f, calls⟩ := realizes.relaysTo hr
    exact ⟨f, _, calls⟩
  · refine ⟨(hr.sane.sound.site r s hs).1, ?_⟩
    rintro rfl
    exact own r hs

/-- The type is eligible for the call site, which is no relay's. Only the relay itself calls through
its call site. -/
structure Ready (o : Usage) (H : History) (ctx : SpecializerRef) (site : CallSiteRef)
    (t : TypeRef) : Prop where
  reachable : Reachable o H
  fits : H.heap.Fits
  has : H.caches.HasSpecializer ctx
  hasSite : H.caches.HasSite site
  use : o site ctx
  own : ∀ r, (H.caches.relayAt r).site ≠ some site
  eligible : H.heap.Eligible (H.caches.settings ctx) (H.caches.siteAt site).shape t

theorem Ready.opens (ready : Ready o H ctx site t) :
    ∃ k c w, Caches.request H.heap ctx (H.caches.siteAt site).shape t
        (H.caches.count ctx .misses) = .ok (.ok k) c ∧
      w = ⟨H.heap, c.setTarget site (some (.shortcut k)), H.world.trace⟩ ∧
      (w.caches.shortcutAt k).arity.count = (H.caches.siteAt site).shape.signature.arity ∧
      FastLane.Open ⟨ctx, site, k, w.caches.shortcutAt k, t⟩ w := by
  obtain ⟨hr, fits, has, hsite, use, own, eligible⟩ := ready
  have missed := unseen_count o H ctx .misses
  have grows := (hr.grows missed.run).caches
  obtain ⟨r, hrecipe⟩ := eligible.recipe (H.caches.specializerAt ctx).valid
  change H.heap.recipe (H.caches.settings ctx) _ t = .ok r at hrecipe
  rw [← grows.settings ctx has] at hrecipe
  obtain ⟨k, c, K, hreq, aimed, hK, hversion, realizes⟩ := request_of_recipe
    (hr.trans missed.run) fits (has.trans_le grows.specializers)
    (hsite.trans_le grows.sites) use rfl hrecipe
  refine ⟨k, c, K.world, hreq, hK, realizes.arity, ?_⟩
  have hires := Caches.request_hires H.heap ctx (H.caches.siteAt site).shape t
    (H.caches.count ctx .misses)
  have hreq : Caches.request H.heap ctx (H.caches.siteAt site).shape t
    (H.caches.count ctx .misses) = _ := hreq
  rw [hreq] at hires
  have growsK := (hr.grows (missed.run.trans aimed.run)).caches
  have shape := growsK.shape site hsite
  refine open_of_hit ((hr.trans missed.run).trans aimed.run) ?_
    (has.trans_le growsK.specializers) (hsite.trans_le growsK.sites) ?_ ?_
    (congrArg (·.signature.arity) shape).symm
    ⟨?_, matches?_eq_some_iff.mpr ⟨hversion, realizes.arity.symm⟩⟩
  · rwa [aimed.heap]
  · rw [growsK.settings ctx has]
    exact eligible.enabled
  · intro r
    rw [History.caches, hK]
    exact (hires.own r).trans_ne (own r)
  · have hsite : c.HasSite site := hsite.trans_eq (congrArg Array.size hires.sites).symm
    rw [hK]
    exact congrArg CallSite.target ((Caches.siteAt_setTarget c site site _).trans
      (if_pos ⟨rfl, hsite⟩))

/-- The call site has a shortcut now, and the call was a fast hit. -/
def Enters (ctx : SpecializerRef) (site : CallSiteRef) (t : TypeRef) (argc : Nat) (w w' : World) :
    Prop :=
  ∃ (l : FastLane) (w₁ : World), l.ctx = ctx ∧ l.site = site ∧ l.type = t ∧
    l.shortcut.arity.count = argc ∧ FastCalls 0 1 (w.counters ctx) (w₁.counters ctx) ∧
    l.Keeps 1 w₁ w'

theorem Ready.update_enters (ready : Ready o H ctx site t) (aloof : e.Aloof)
    (hargs : args.length = (H.caches.siteAt site).shape.signature.arity) :
    Enters ctx site t args.length H.world
      (Run.world (e.update (e.callRelay ctx) ctx site (.type t) args H.world)) := by
  obtain ⟨k, c, w, hreq, hw, harity, lane⟩ := ready.opens
  refine ⟨⟨ctx, site, k, w.caches.shortcutAt k, t⟩, w, rfl, rfl, rfl, harity.trans hargs.symm, ?_,
    ?_⟩
  · have asked := Caches.request_fastCalls ready.has hreq
    rw [hw]
    exact asked
  · have hmatch := matches?_eq_some_iff.mpr ⟨lane.version, hargs.trans harity.symm⟩
    rw [update_type_apply, hreq]
    dsimp only
    rw [← hw, holding_of_match hmatch fun _ => rfl]
    exact lane.keeps_served aloof args

theorem Ready.invoke_enters (ready : Ready o H ctx site t) (aloof : e.Aloof)
    (hargs : args.length = (H.caches.siteAt site).shape.signature.arity) :
    Enters ctx site t args.length H.world
      (Run.world (e.invoke ctx site (.type t) args H.world)) := by
  have enabled := ready.eligible.enabled
  by_cases hit : ∃ k, H.world.Hits site k t args.length
  · obtain ⟨k, hit⟩ := hit
    obtain ⟨-, harity⟩ := matches?_eq_some_iff.mp hit.2
    have lane := open_of_hit ready.reachable ready.fits ready.has ready.hasSite enabled ready.own
      hargs hit
    exact ⟨_, H.world, rfl, rfl, rfl, harity.symm, (FastCalls.refl _).mono (Nat.zero_le 1),
      lane.keeps_invoke aloof harity⟩
  · rcases invoke_of_no_hit (e := e) hargs enabled (fun k h => hit ⟨k, h⟩) with heq | ⟨k, heq⟩
    · rw [heq]
      exact ready.update_enters aloof hargs
    · -- The old target is held while the call site looks for a new one.
      have held : Ready o (H.withCaches (H.caches.hold k)) ctx site t :=
        { ready with reachable := ready.reachable.trans (unseen_hold o H k).run }
      obtain ⟨l, w₁, rfl, rfl, rfl, hargc, asked, kept⟩ := held.update_enters aloof hargs
      rw [heq, world_always]
      exact ⟨l, w₁, rfl, rfl, rfl, hargc, asked,
        kept.tail (kept.stays.keeps_apart (World.apart_release _))⟩

/-! ## Main theorem -/

/-- Calls of a type that is eligible for the call site, with the right number of arguments each,
where bodies change no class and make no calls. Every one of them is a fast hit, whatever the target
of the call site was and whether the calls succeed or fail. At most one shortcut is built for them
and two relays are made. There are at most three misses: one at the call site itself, and one for
each relay. -/
theorem calls_stay_fast (ready : Ready o H ctx site t) (aloof : e.Aloof)
    (calls : List (List Value))
    (hcalls : ∀ args ∈ calls, args.length = (H.caches.siteAt site).shape.signature.arity) :
    FastCalls calls.length 3 (H.world.counters ctx)
      ((e.afterCalls ctx site t calls H.world).counters ctx) := by
  cases calls with
  | nil => exact (FastCalls.refl _).mono (Nat.zero_le 3)
  | cons args calls =>
    obtain ⟨hargs, hcalls⟩ := List.forall_mem_cons.mp hcalls
    obtain ⟨l, w, rfl, rfl, rfl, hargc, asked, first⟩ := ready.invoke_enters aloof hargs
    have rest := first.stays.keeps_calls aloof fun args' h =>
      (hcalls args' h).trans (hargs.symm.trans hargc.symm)
    rw [List.length_cons, Nat.add_comm]
    exact (first.trans rest).fastCalls asked

/-- `__new__` gives an object, and `__init__` fails. -/
def stumbling : Engine where
  run
    | .function ⟨0⟩ _ => pure (.object ⟨0⟩)
    | _ => Run.fail (.type .expectedType)
  depth := 1

theorem stumbling_aloof : stumbling.Aloof := by
  intro E w
  unfold stumbling
  dsimp only
  split <;> exact .refl w

/-- No call ends well, and every bound is reached. -/
theorem foreign_stays_fast :
    FastCalls 3 3 (foreign.world.counters .shared)
      ((stumbling.afterCalls .shared ⟨0⟩ ⟨1⟩ [[], [], []] foreign.world).counters .shared) ∧
    (stumbling.afterCalls .shared ⟨0⟩ ⟨1⟩ [[], [], []] foreign.world).counters .shared =
      { siteBuilds := 1, adapterBuilds := 2, fastHits := 3, misses := 3 } := by
  have ready : Ready (fun _ _ => True) foreign .shared ⟨0⟩ ⟨1⟩ := by
    refine ⟨foreign_reachable _, by decide +kernel, by decide +kernel, by decide +kernel, trivial,
      fun r => ?_, Heap.eligible_iff.mpr (by decide +kernel)⟩
    have fresh : (foreign.caches.relayAt r).site = none := rfl
    simp [fresh]
  exact ⟨calls_stay_fast ready stumbling_aloof [[], [], []] (by decide +kernel),
    by decide +kernel⟩

end Engine

end InlineCache
