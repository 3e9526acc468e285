import InlineCache.Proofs.Relays
import InlineCache.Proofs.Statistics

/-! # Staying on the fast path

Once a call site has a shortcut that is good for a type, every call of the type is a fast hit until
the type changes, no matter how the calls end. A relay costs a miss when it is first called, and
none after that. -/

namespace InlineCache

/-! ## Bodies that keep to themselves -/

/-- What was cached stays as it was, and so do the versions of types. -/
structure World.Apart (w w' : World) : Prop where
  specializer : ∀ s, w.caches.HasSpecializer s →
    w'.caches.HasSpecializer s ∧ w'.caches.specializerAt s = w.caches.specializerAt s
  site : ∀ s, w.caches.HasSite s →
    w'.caches.HasSite s ∧ w'.caches.siteAt s = w.caches.siteAt s
  shortcuts : w'.caches.shortcuts = w.caches.shortcuts
  relays : w'.caches.relays = w.caches.relays
  version : ∀ t, w.heap.Has t →
    w'.heap.Has t ∧ (w'.heap.typeAt t).version = (w.heap.typeAt t).version

/-- No body changes a class or makes a call. -/
def Engine.Aloof (e : Engine) : Prop := ∀ E w, World.Apart w (Run.world (e.run E w))

namespace World

variable {w w₁ w₂ w₃ : World}

theorem Apart.refl (w : World) : Apart w w :=
  ⟨fun _ h => ⟨h, rfl⟩, fun _ h => ⟨h, rfl⟩, rfl, rfl, fun _ h => ⟨h, rfl⟩⟩

theorem Apart.trans (a : Apart w₁ w₂) (b : Apart w₂ w₃) : Apart w₁ w₃ := by
  refine ⟨fun s hs => ?_, fun s hs => ?_, b.shortcuts.trans a.shortcuts,
    b.relays.trans a.relays, fun t ht => ?_⟩
  · obtain ⟨hs₂, same⟩ := a.specializer s hs
    obtain ⟨hs₃, same'⟩ := b.specializer s hs₂
    exact ⟨hs₃, same'.trans same⟩
  · obtain ⟨hs₂, same⟩ := a.site s hs
    obtain ⟨hs₃, same'⟩ := b.site s hs₂
    exact ⟨hs₃, same'.trans same⟩
  · obtain ⟨ht₂, same⟩ := a.version t ht
    obtain ⟨ht₃, same'⟩ := b.version t ht₂
    exact ⟨ht₃, same'.trans same⟩

theorem Apart.relayAt (a : Apart w₁ w₂) (r : RelayRef) :
    w₂.caches.relayAt r = w₁.caches.relayAt r := by
  rw [Caches.relayAt, Caches.relayAt, a.relays]

theorem apart_of_eq (specializers : w₂.caches.specializers = w₁.caches.specializers)
    (sites : w₂.caches.sites = w₁.caches.sites)
    (shortcuts : w₂.caches.shortcuts = w₁.caches.shortcuts)
    (relays : w₂.caches.relays = w₁.caches.relays) (types : w₂.heap.types = w₁.heap.types) :
    Apart w₁ w₂ := by
  refine ⟨fun s hs => ?_, fun s hs => ?_, shortcuts, relays, fun t ht => ?_⟩
  · rw [Caches.HasSpecializer, Caches.specializerAt, specializers]
    exact ⟨hs, rfl⟩
  · rw [Caches.HasSite, Caches.siteAt, sites]
    exact ⟨hs, rfl⟩
  · rw [Heap.Has, Heap.typeAt, types]
    exact ⟨ht, rfl⟩

theorem apart_hold (w : World) (k : ShortcutRef) : Apart w (w.hold k) :=
  apart_of_eq rfl rfl rfl rfl rfl

theorem apart_release (w : World) : Apart w w.release := apart_of_eq rfl rfl rfl rfl rfl

end World

namespace Engine.Aloof

open World

variable {e : Engine} (aloof : e.Aloof) {w : World}

include aloof

theorem enter (E : Entry) (w : World) : Apart w (Run.world (e.enter E w)) := by
  have traced : Apart w { w with trace := w.trace.push E } := apart_of_eq rfl rfl rfl rfl rfl
  exact traced.trans (aloof E _)

theorem callFunction (f : FunctionRef) (args : CallArgs) (w : World) :
    Apart w (Run.world (e.callFunction f args w)) := by
  rw [callFunction_apply]
  cases (w.heap.functionAt f).bind args w.heap.boxes with
  | error fault => exact .refl w
  | ok slots =>
    dsimp only
    split
    · have boxed : Apart w { w with heap := w.heap.addBox.2 } := apart_of_eq rfl rfl rfl rfl rfl
      exact boxed.trans (aloof.enter (.function _ slots) _)
    · exact aloof.enter (.function _ slots) w

theorem callPlanned (f : FunctionRef) (plan : Option (List Nat)) (s : Signature)
    (args : List Value) (w : World) : Apart w (Run.world (e.callPlanned f plan s args w)) := by
  unfold Engine.callPlanned
  cases plan with
  | some plan => exact aloof.enter _ w
  | none =>
    dsimp only
    rw [heap_bind]
    cases s.layOut w.heap.typeName args with
    | error fault => exact .refl w
    | ok laid => exact aloof.callFunction f laid w

theorem construct (l : LayoutRef) (i : Nat) (c : NativeCtor) (args : List Value) (w : World) :
    Apart w (Run.world (e.construct l i c args w)) := by
  unfold Engine.construct
  cases c.body with
  | custom => exact aloof.enter (.ctor _ _ args) w
  | plain =>
    dsimp only
    split
    · exact apart_of_eq rfl rfl rfl rfl rfl
    · exact .refl w

end Engine.Aloof

/-! ## A call site that has its shortcut -/

/-- A call site used with a specializer, and the shortcut that it has for a type. -/
structure FastLane where
  ctx : SpecializerRef
  site : CallSiteRef
  target : ShortcutRef
  shortcut : Shortcut
  type : TypeRef

namespace FastLane

/-- Calls of the type are fast hits, and every relay of the shortcut calls a function. No relay
shares its call site, neither with another relay nor with these calls. -/
structure Open (l : FastLane) (w : World) : Prop where
  has : w.caches.HasSpecializer l.ctx
  enabled : (w.caches.settings l.ctx).enabled = true
  hasSite : w.caches.HasSite l.site
  arity : (w.caches.siteAt l.site).shape.signature.arity = l.shortcut.arity.count
  target : (w.caches.siteAt l.site).target = some (.shortcut l.target)
  hasShortcut : w.caches.HasShortcut l.target
  shortcut : w.caches.shortcutAt l.target = l.shortcut
  type : w.heap.Has l.type
  version : (w.heap.typeAt l.type).version = l.shortcut.version
  relays : ∀ r ∈ l.shortcut.relays, ∃ f s, w.caches.RelaysTo r f s
  sites : ∀ r s, (w.caches.relayAt r).site = some s → w.caches.HasSite s ∧ s ≠ l.site
  unshared : w.caches.Unshared

/-- How many relays of the shortcut are not warm. -/
def cold (l : FastLane) (w : World) : Nat := w.caches.cold l.shortcut.relays

/-- The lane stays open. So many fast hits were counted, and at most as many misses as relays got
warm. -/
structure Keeps (l : FastLane) (hits : Nat) (w w' : World) : Prop where
  stays : l.Open w'
  counted : ∃ m, m + l.cold w' ≤ l.cold w ∧ w'.counters l.ctx = { w.counters l.ctx with
    fastHits := (w.counters l.ctx).fastHits + .ofNat hits
    misses := (w.counters l.ctx).misses + .ofNat m }

variable {l : FastLane} {w w' w₁ w₂ w₃ : World} {m n : Nat}

theorem keeps_of_eq (stays : l.Open w₂) (cold : l.cold w₂ ≤ l.cold w₁)
    (same : w₂.counters l.ctx = w₁.counters l.ctx) : l.Keeps 0 w₁ w₂ := by
  exact ⟨stays, 0, by omega, by simp [same]⟩

theorem Open.refl (lane : l.Open w) : l.Keeps 0 w w := keeps_of_eq lane le_rfl rfl

theorem Keeps.trans (a : l.Keeps m w₁ w₂) (b : l.Keeps n w₂ w₃) : l.Keeps (m + n) w₁ w₃ := by
  obtain ⟨i, hi, h₁₂⟩ := a.counted
  obtain ⟨j, hj, h₂₃⟩ := b.counted
  refine ⟨b.stays, i + j, by omega, ?_⟩
  rw [h₂₃, h₁₂, UInt64.ofNat_add, UInt64.ofNat_add, UInt64.add_assoc, UInt64.add_assoc]

theorem Keeps.tail (a : l.Keeps n w₁ w₂) (b : l.Keeps 0 w₂ w₃) : l.Keeps n w₁ w₃ := a.trans b

/-! ## Steps -/

theorem Open.grows (lane : l.Open w) {c : Caches} (g : w.caches.Grows c)
    (target : (c.siteAt l.site).target = (w.caches.siteAt l.site).target)
    (sites : ∀ r s, (c.relayAt r).site = some s → c.HasSite s ∧ s ≠ l.site)
    (unshared : c.Unshared) : l.Open { w with caches := c } where
  has := lane.has.trans_le g.specializers
  enabled := (congrArg Settings.enabled (g.settings l.ctx lane.has)).trans lane.enabled
  hasSite := lane.hasSite.trans_le g.sites
  arity := (congrArg (·.signature.arity) (g.shape l.site lane.hasSite)).trans lane.arity
  target := target.trans lane.target
  hasShortcut := lane.hasShortcut.trans_le g.shortcuts
  shortcut := (g.shortcutAt l.target lane.hasShortcut).trans lane.shortcut
  type := lane.type
  version := lane.version
  relays r hr := by
    obtain ⟨f, s, calls⟩ := lane.relays r hr
    exact ⟨f, s, calls.mono g⟩
  sites := sites
  unshared := unshared

theorem Open.apart (lane : l.Open w) (a : w.Apart w') : l.Open w' := by
  obtain ⟨has, specializer⟩ := a.specializer l.ctx lane.has
  obtain ⟨hasSite, site⟩ := a.site l.site lane.hasSite
  obtain ⟨type, version⟩ := a.version l.type lane.type
  refine ⟨has, ?_, hasSite, ?_, ?_, ?_, ?_, type, version.trans lane.version, ?_, ?_, ?_⟩
  · rw [Caches.settings, specializer]
    exact lane.enabled
  · rw [site]
    exact lane.arity
  · rw [site]
    exact lane.target
  · rw [Caches.HasShortcut, a.shortcuts]
    exact lane.hasShortcut
  · rw [Caches.shortcutAt, a.shortcuts]
    exact lane.shortcut
  · intro r hr
    obtain ⟨f, s, calls⟩ := lane.relays r hr
    refine ⟨f, s, ?_, ?_, ?_⟩
    · rw [Caches.HasRelay, a.relays]
      exact calls.has
    · rw [a.relayAt]
      exact calls.callable
    · rw [a.relayAt]
      exact calls.shape
  · intro r s own
    rw [a.relayAt] at own
    obtain ⟨has, apart⟩ := lane.sites r s own
    exact ⟨(a.site s has).1, apart⟩
  · intro r p s
    rw [a.relayAt, a.relayAt]
    exact lane.unshared r p s

theorem Open.warm_apart (lane : l.Open w) (a : w.Apart w') (r : RelayRef) :
    w'.caches.warm r = w.caches.warm r := by
  have same := a.relayAt r
  refine Caches.warm_congr (congrArg Relay.site same) (congrArg Relay.callable same) fun s own => ?_
  rw [(a.site s (lane.sites r s own).1).2]

theorem Open.keeps_apart (lane : l.Open w) (a : w.Apart w') : l.Keeps 0 w w' := by
  refine keeps_of_eq (lane.apart a) (Caches.cold_le fun r _ => ?_) ?_
  · rw [lane.warm_apart a]
    exact id
  · exact congrArg Specializer.counters (a.specializer l.ctx lane.has).2

theorem Open.count (lane : l.Open w) (n : Counter) : l.Open (w.counted l.ctx n) :=
  lane.grows (Caches.count_prepares w.caches l.ctx n).grows rfl lane.sites lane.unshared

theorem Open.keeps_hit (lane : l.Open w) : l.Keeps 1 w (w.counted l.ctx .fastHits) := by
  refine ⟨lane.count .fastHits, 0, (Nat.zero_add _).le, ?_⟩
  rw [Story.counters_counted, if_pos ⟨rfl, lane.has⟩]
  simp [Counters.record]

theorem Open.keeps_relaySite (lane : l.Open w) {r : RelayRef} (has : w.caches.HasRelay r) :
    l.Keeps 0 w { w with caches := (w.caches.relaySite r).2 } := by
  have grows := Caches.relaySite_grows w.caches r
  have linked := fun p s own => (lane.sites p s own).1
  have opened : l.Open { w with caches := (w.caches.relaySite r).2 } := by
    refine lane.grows grows ?_ ?_ (lane.unshared.relaySite linked r)
    · rw [Caches.siteAt_relaySite lane.hasSite]
    · intro p s own
      rcases Caches.own_relaySite w.caches r p with old | ⟨-, rfl, made⟩
      · obtain ⟨hasSite, apart⟩ := lane.sites p s (old ▸ own)
        exact ⟨hasSite.trans_le grows.sites, apart⟩
      -- A new call site stands behind all others, that of the lane among them.
      · have same := Caches.own_relaySite_self has
        rw [own] at same made
        obtain rfl := Option.some.inj same
        refine ⟨Caches.hasSite_relaySite (linked p), ?_⟩
        rw [Option.some.inj made]
        rintro heq
        exact lt_irrefl _ (heq ▸ lane.hasSite)
  refine keeps_of_eq opened (Caches.cold_le fun p _ => Caches.warm_relaySite (linked p) r) ?_
  refine Story.counters_of_specializers ?_
  rcases Caches.relaySite_eq w.caches r with heq | heq
  · exact congrArg Caches.specializers heq
  · exact (congrArg Caches.specializers heq :)

/-! ## Calls of relays -/

section

variable {e : Engine} (relay : Engine.CallRelay) {r : RelayRef} {s : CallSiteRef} {f : FunctionRef}
  (lane : l.Open w) (aloof : e.Aloof) (hr : r ∈ l.shortcut.relays)
  (own : (w.caches.relayAt r).site = some s)
  (callable : (w.caches.relayAt r).callable = .function f)

include lane hr own callable

/-- The first call of a relay costs a miss, and the relay is warm once the call is over. -/
theorem Open.keeps_miss (hcold : w.caches.warm r = false)
    (called : (w.counted l.ctx .misses).Apart w') (plan : Option (List Nat)) :
    l.Keeps 0 w { w' with caches := w'.caches.setTarget s (some (.function f plan)) } := by
  have missed := lane.count .misses
  have kept := missed.keeps_apart called
  obtain ⟨has, apart⟩ := lane.sites r s own
  have has' := (called.site s has).1
  have same : w'.caches.relayAt r = w.caches.relayAt r := called.relayAt r
  have warmed := Caches.warm_setTarget kept.stays.unshared (same ▸ own) has' (same ▸ callable) plan
  have grows := Caches.setTarget_grows w'.caches s (some (.function f plan))
  have opened : l.Open { w' with caches := w'.caches.setTarget s (some (.function f plan)) } := by
    -- The call site that gets the function is the relay's own, not that of the lane.
    refine kept.stays.grows grows ?_ ?_ kept.stays.unshared
    · rw [Caches.siteAt_setTarget, if_neg fun both => apart both.1]
    · intro p q hq
      obtain ⟨has, apart⟩ := kept.stays.sites p q hq
      exact ⟨has.trans_le grows.sites, apart⟩
  have fewer : l.cold { w' with caches := w'.caches.setTarget s (some (.function f plan)) } <
      l.cold w' := by
    refine Caches.cold_lt (fun p _ hp => ?_) hr ?_ ?_
    · rw [warmed, hp, Bool.true_or]
    · rw [missed.warm_apart called]
      exact hcold
    · rw [warmed, decide_eq_true rfl, Bool.or_true]
  -- The relay that gets warm pays for the miss.
  obtain ⟨m, hm, hcounters⟩ := kept.counted
  have hm : m + l.cold w' ≤ l.cold w := hm
  refine ⟨opened, m + 1, by omega, ?_⟩
  rw [Story.counters_counted, if_pos ⟨rfl, lane.has⟩] at hcounters
  refine Eq.trans hcounters ?_
  simp [Counters.record, UInt64.ofNat_add, UInt64.add_assoc, UInt64.add_comm 1]

include aloof

theorem Open.keeps_update (hcold : w.caches.warm r = false) (args : List Value) :
    l.Keeps 0 w (Run.world (e.update relay l.ctx s (.function f) args w)) := by
  obtain ⟨plan, -, heq⟩ := Engine.update_of_function e relay l.ctx s f args w
  rw [heq, Engine.world_always, History.world_mapError]
  exact lane.keeps_miss hr own callable hcold (aloof.callPlanned f plan _ args _) plan

theorem Open.keeps_function (args : List Value) :
    l.Keeps 0 w (Run.world (e.invokeWith relay l.ctx s (.function f) args w)) := by
  by_cases hargs : args.length = (w.caches.siteAt s).shape.signature.arity
  · rw [Engine.invokeWith_eq e relay l.ctx _ hargs]
    cases hwarm : w.caches.warm r with
    | true =>
      obtain ⟨plan, target⟩ := Caches.target_of_warm own callable hwarm
      simp only [target, if_pos]
      rw [History.world_mapError]
      exact lane.keeps_apart (aloof.callPlanned f plan _ args w)
    | false =>
      have updated := lane.keeps_update relay aloof hr own callable hwarm args
      cases htarget : (w.caches.siteAt s).target with
      | none => exact updated
      | some target =>
        cases target with
        | shortcut k =>
          -- Whatever it is, it is no good for a function.
          have held := lane.keeps_apart (World.apart_hold w k)
          have inside : l.Keeps 0 (w.hold k) (Run.world
              (e.executeShortcut relay l.ctx k s (.function f) args (w.hold k))) := by
            rw [Engine.executeShortcut_of_none rfl]
            exact held.stays.keeps_update relay aloof hr own callable hwarm args
          simp only [if_pos lane.enabled]
          change l.Keeps 0 w (Run.world (Run.always _ World.release (w.hold k)))
          rw [Engine.world_always]
          exact (held.tail inside).tail (inside.stays.keeps_apart (World.apart_release _))
        | function g plan =>
          dsimp only
          rw [if_neg]
          · exact updated
          · intro heq
            cases heq
            simp [Caches.warm_of_target own callable htarget] at hwarm
  · rw [Engine.invokeWith_of_ne e relay l.ctx _ hargs]
    exact lane.refl

end

section

variable {e : Engine} {args : List Value} (lane : l.Open w) (aloof : e.Aloof)

include lane aloof

theorem Open.keeps_relay {r : RelayRef} (hr : r ∈ l.shortcut.relays) (v : Value)
    (args : List Value) : l.Keeps 0 w (Run.world (e.callRelay l.ctx r v args w)) := by
  unfold Engine.callRelay
  cases e.depth with
  | zero => exact lane.refl
  | succ depth =>
    obtain ⟨f, s, calls⟩ := lane.relays r hr
    have made := lane.keeps_relaySite calls.has
    have callable := (Caches.callable_relaySite w.caches r r).trans calls.callable
    have called := made.stays.keeps_function (e.relayWithin l.ctx depth) aloof hr
      (Caches.own_relaySite_self calls.has) callable (v :: args)
    have kept := made.tail called
    rw [← callable] at kept
    exact kept

theorem Open.keeps_allocation (args : List Value) :
    l.Keeps 0 w (Run.world (e.runAllocation (e.callRelay l.ctx) l.shortcut.allocate l.type args
      w)) := by
  unfold Engine.runAllocation
  cases hallocate : l.shortcut.allocate with
  | native layout =>
    dsimp only
    rw [Engine.heap_bind]
    cases (w.heap.layoutAt layout).ctors with
    | nil => exact lane.refl
    | cons c _ =>
      dsimp only
      rw [History.world_mapError]
      exact lane.keeps_apart (aloof.construct layout 0 c _ w)
  | relay r =>
    exact lane.keeps_relay aloof (Shortcut.mem_relays_iff.mpr (Or.inl hallocate)) _ args

theorem Open.keeps_initializer (v : Value) (args : List Value) :
    l.Keeps 0 w (Run.world (Engine.runInitializer (e.callRelay l.ctx) l.shortcut.initializer l.type
      v args w)) := by
  unfold Engine.runInitializer
  cases hinitializer : l.shortcut.initializer with
  | none => exact lane.refl
  | some r =>
    have through := Shortcut.mem_relays_iff.mpr (Or.inr hinitializer)
    have called := lane.keeps_relay aloof through v args
    dsimp only
    rw [Engine.heap_bind]
    split
    · rw [Run.bind_apply]
      cases hcall : e.callRelay l.ctx r v args w <;> rwa [hcall] at called
    · exact lane.refl

theorem Open.keeps_shortcut (args : List Value) :
    l.Keeps 0 w (Run.world (e.runShortcut (e.callRelay l.ctx) l.shortcut l.type args w)) := by
  have allocated := lane.keeps_allocation aloof args
  unfold Engine.runShortcut
  rw [Run.bind_apply]
  cases hmade : e.runAllocation (e.callRelay l.ctx) l.shortcut.allocate l.type args w with
  | error stop w₁ => rwa [hmade] at allocated
  | ok v w₁ =>
    rw [hmade] at allocated
    exact allocated.tail (allocated.stays.keeps_initializer aloof v args)

theorem Open.keeps_served (args : List Value) :
    l.Keeps 1 w (Run.world (Run.always
      (e.runShortcut (e.callRelay l.ctx) l.shortcut l.type args) World.release
      ((w.hold l.target).counted l.ctx .fastHits))) := by
  have held := lane.keeps_apart (World.apart_hold w l.target)
  have hit : l.Keeps 1 w _ := held.trans held.stays.keeps_hit
  have served := hit.tail (hit.stays.keeps_shortcut aloof args)
  rw [Engine.world_always]
  exact served.tail (served.stays.keeps_apart (World.apart_release _))

theorem Open.keeps_invoke (hargs : args.length = l.shortcut.arity.count) :
    l.Keeps 1 w (Run.world (e.invoke l.ctx l.site (.type l.type) args w)) := by
  have hit : w.Hits l.site l.target l.type args.length := by
    refine ⟨lane.target, Engine.matches?_eq_some_iff.mpr ?_⟩
    rw [lane.shortcut]
    exact ⟨lane.version, hargs⟩
  rw [Engine.invoke_of_hit (hargs.trans lane.arity.symm) lane.enabled hit, lane.shortcut]
  exact lane.keeps_served aloof args

end

end FastLane

/-! ## Call after call -/

/-- The world after calls of a type, one after the other and however they end. -/
def Engine.afterCalls (e : Engine) (ctx : SpecializerRef) (site : CallSiteRef) (t : TypeRef)
    (calls : List (List Value)) (w : World) : World :=
  calls.foldl (fun w args => Run.world (e.invoke ctx site (.type t) args w)) w

/-- A run of calls on an open lane. The lane is the invariant, and each call is one more hit. -/
theorem FastLane.Open.keeps_calls {l : FastLane} {w : World} {e : Engine} (lane : l.Open w)
    (aloof : e.Aloof) {calls : List (List Value)}
    (hcalls : ∀ args ∈ calls, args.length = l.shortcut.arity.count) :
    l.Keeps calls.length w (e.afterCalls l.ctx l.site l.type calls w) := by
  induction calls generalizing w with
  | nil => exact lane.refl
  | cons args calls ih =>
    obtain ⟨hargs, hcalls⟩ := List.forall_mem_cons.mp hcalls
    have first := lane.keeps_invoke aloof hargs
    rw [List.length_cons, Nat.add_comm]
    exact first.trans (ih first.stays hcalls)

end InlineCache
