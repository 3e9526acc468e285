import InlineCache.Proofs.Timeline
import InlineCache.Proofs.Unseen

/-! # Who serves a call

A call of a type through a call site is served by a shortcut or by the general protocol. Which of
them it is can be read off the world before the call, also where call sites are shared between
specializers with different settings. -/

namespace InlineCache

/-- The target of a call site is a shortcut that is good for a call of the type with so many
arguments. -/
def World.Hits (w : World) (site : CallSiteRef) (k : ShortcutRef) (t : TypeRef) (argc : Nat) :
    Prop :=
  (w.caches.siteAt site).target = some (.shortcut k) ∧
    Engine.matches? w (w.caches.shortcutAt k) (.type t) argc = some t

def World.hold (w : World) (k : ShortcutRef) : World := { w with caches := w.caches.hold k }

def World.release (w : World) : World := { w with caches := w.caches.release }

theorem World.release_still (w : World) : w.release.heap = w.heap ∧ w.release.trace = w.trace :=
  ⟨rfl, rfl⟩

/-- A shortcut serves the call: the call site has one that is good for it, or gets one now. -/
def World.CutsShort (w : World) (ctx : SpecializerRef) (site : CallSiteRef) (t : TypeRef)
    (argc : Nat) : Prop :=
  (w.caches.settings ctx).enabled = true ∧
    ((∃ k, w.Hits site k t argc) ∨
      ∃ r, w.heap.recipe (w.caches.settings ctx) (w.caches.siteAt site).shape t = .ok r)

theorem Heap.recipe_ne_error {settings : Settings} (valid : settings.Valid) (h : Heap)
    (shape : SiteShape) (t : TypeRef) (fault : BindError) :
    h.recipe settings shape t ≠ .error (.error fault) := by
  unfold recipe
  cases hgate : gate settings h shape t with
  | some reason => simp
  | none =>
    obtain ⟨-, -, -, -, hcap, -⟩ := gate_eq_none_iff.mp hgate
    have harity : shape.signature.arity ≤ arityLimit := hcap.trans valid
    unfold construction? Arity.ofNat
    rw [dif_pos harity]
    dsimp only
    split
    · simp
    · split <;> simp

theorem World.refusal_of_not_cutsShort {w : World} {ctx : SpecializerRef} {site : CallSiteRef}
    {t : TypeRef} {argc : Nat} (cut : ¬ w.CutsShort ctx site t argc) :
    ∃ reason, w.heap.recipe (w.caches.settings ctx) (w.caches.siteAt site).shape t =
      .error (.refusal reason) := by
  by_cases enabled : (w.caches.settings ctx).enabled = true
  · cases hr : w.heap.recipe (w.caches.settings ctx) (w.caches.siteAt site).shape t with
    | ok r => exact absurd ⟨enabled, Or.inr ⟨r, hr⟩⟩ cut
    | error obstacle =>
      cases obstacle with
      | refusal reason => exact ⟨reason, rfl⟩
      | error fault =>
        exact absurd hr (Heap.recipe_ne_error (w.caches.specializerAt ctx).valid _ _ _ _)
  · refine ⟨.disabled, ?_⟩
    rw [Heap.recipe, gate, if_pos (by simp [enabled])]

namespace Engine

open History

variable {o : Usage} {e : Engine} {relay : CallRelay} {H : History} {ctx : SpecializerRef}
  {site : CallSiteRef} {t : TypeRef} {args : List Value} {w : World}

/-! ## Shortcuts -/

section

variable {k : ShortcutRef}

theorem matches?_eq_some_iff {s : Shortcut} {argc : Nat} :
    matches? w s (.type t) argc = some t ↔
      (w.heap.typeAt t).version = s.version ∧ argc = s.arity.count := by
  unfold matches?
  simp

theorem matches?_eq_none {s : Shortcut} {argc : Nat}
    (h : matches? w s (.type t) argc ≠ some t) : matches? w s (.type t) argc = none := by
  unfold matches? at h ⊢
  simp_all

theorem some_map_bind {ε α : Type} (x : Run ε α) {f : Option α → Run ε α}
    (hf : ∀ a, f (some a) = pure a) (w : World) : ((some <$> x) >>= f) w = x w := by
  rw [Run.bind_apply, ← bind_pure_comp, Run.bind_apply]
  cases hx : x w with
  | ok a w' => simp [hf]
  | error s w' => rfl

theorem always_congr {ε α : Type} {x y : Run ε α} {w w' : World} (h : x w = y w')
    (f : World → World) : Run.always x f w = Run.always y f w' := by
  unfold Run.always
  rw [h]

theorem always_map {ε α β : Type} (g : α → β) (x : Run ε α) (f : World → World) (w : World) :
    Run.always (g <$> x) f w = (g <$> Run.always x f) w := by
  rw [← bind_pure_comp, ← bind_pure_comp, Run.bind_apply]
  unfold Run.always
  rw [Run.bind_apply]
  cases x w <;> rfl

theorem tryShortcut_of_match
    (hmatch : matches? w (w.caches.shortcutAt k) (.type t) args.length = some t) :
    e.tryShortcut relay ctx k (.type t) args w =
      (some <$> e.runShortcut relay (w.caches.shortcutAt k) t args)
        { w with caches := w.caches.count ctx .fastHits } := by
  unfold tryShortcut
  rw [get_bind, hmatch]
  rfl

theorem executeShortcut_of_match
    (hmatch : matches? w (w.caches.shortcutAt k) (.type t) args.length = some t) :
    e.executeShortcut relay ctx k site (.type t) args w =
      e.runShortcut relay (w.caches.shortcutAt k) t args
        { w with caches := w.caches.count ctx .fastHits } := by
  unfold executeShortcut
  rw [Run.bind_apply, tryShortcut_of_match hmatch, ← Run.bind_apply]
  exact some_map_bind _ (fun _ => rfl) _

theorem executeShortcut_of_no_match
    (hmatch : matches? w (w.caches.shortcutAt k) (.type t) args.length ≠ some t) :
    e.executeShortcut relay ctx k site (.type t) args w =
      e.update relay ctx site (.type t) args w := by
  unfold executeShortcut
  rw [Run.bind_apply, tryShortcut_of_no_match (matches?_eq_none hmatch)]

theorem invoke_of_hit (hargs : args.length = (w.caches.siteAt site).shape.signature.arity)
    (enabled : (w.caches.settings ctx).enabled = true) (hit : w.Hits site k t args.length) :
    e.invoke ctx site (.type t) args w =
      Run.always (e.runShortcut (e.callRelay ctx) (w.caches.shortcutAt k) t args) World.release
        { w with caches := (w.caches.hold k).count ctx .fastHits } := by
  obtain ⟨htarget, hmatch⟩ := hit
  unfold invoke
  rw [invokeWith_eq e _ ctx _ hargs]
  simp only [htarget, if_pos enabled]
  exact always_congr (executeShortcut_of_match (w := w.hold k) hmatch) World.release

theorem invoke_of_no_hit (hargs : args.length = (w.caches.siteAt site).shape.signature.arity)
    (enabled : (w.caches.settings ctx).enabled = true)
    (nohit : ∀ k, ¬ w.Hits site k t args.length) :
    e.invoke ctx site (.type t) args w =
        e.update (e.callRelay ctx) ctx site (.type t) args w ∨
      ∃ k, e.invoke ctx site (.type t) args w =
        Run.always (e.update (e.callRelay ctx) ctx site (.type t) args) World.release
          (w.hold k) := by
  unfold invoke
  rw [invokeWith_eq e _ ctx _ hargs]
  cases htarget : (w.caches.siteAt site).target with
  | none => exact Or.inl rfl
  | some target =>
    cases target with
    | function f plan => exact Or.inl (congrFun (if_neg (by simp)) w)
    | shortcut k =>
      refine Or.inr ⟨k, ?_⟩
      simp only [if_pos enabled]
      have hmatch := fun h => nohit k ⟨htarget, h⟩
      exact always_congr (executeShortcut_of_no_match (w := w.hold k) hmatch) World.release

end

/-- The run ends like a shortcut that does what the recipe says, started once caches had changed
and nothing else. -/
def CutsAs (e : Engine) (ctx : SpecializerRef) (s : Signature) (r : Recipe) (t : TypeRef)
    (args : List Value) (o : Usage) (H : History)
    (res : EStateM.Result (Stop CallError) World Value) : Prop :=
  ∃ K k, Unseen o H K ∧ K.caches.Realizes s k r ∧
    Run.seen res = Run.seen (e.runShortcut (e.callRelay ctx) k t args K.world)

section

variable {s : Signature} {r : Recipe} {K : History}

theorem CutsAs.after {res : EStateM.Result (Stop CallError) World Value} (unseen : Unseen o H K)
    (cuts : e.CutsAs ctx s r t args o K res) : e.CutsAs ctx s r t args o H res := by
  obtain ⟨L, k, unseen', realizes, same⟩ := cuts
  exact ⟨L, k, unseen.trans unseen', realizes, same⟩

theorem CutsAs.always {x : Run CallError Value} {f : World → World}
    (hf : ∀ w, (f w).heap = w.heap ∧ (f w).trace = w.trace)
    (cuts : e.CutsAs ctx s r t args o H (x w)) :
    e.CutsAs ctx s r t args o H (Run.always x f w) := by
  obtain ⟨L, k, unseen, realizes, same⟩ := cuts
  exact ⟨L, k, unseen, realizes, (seen_always hf w).trans same⟩

end

theorem holding_cuts (e : Engine) (ctx : SpecializerRef) {s : Signature} {r : Recipe}
    {k : ShortcutRef} (hr : Reachable o H)
    (hmatch : matches? H.world (H.caches.shortcutAt k) (.type t) args.length = some t)
    (realizes : H.caches.Realizes s (H.caches.shortcutAt k) r)
    {f : Option Value → Run CallError Value} (hf : ∀ a, f (some a) = pure a) :
    e.CutsAs ctx s r t args o H
      ((Run.holding k (e.tryShortcut (e.callRelay ctx) ctx k (.type t) args) >>= f) H.world) := by
  have hit := (unseen_hold o H k).trans (unseen_count o _ ctx .fastHits)
  refine ⟨_, H.caches.shortcutAt k, hit, realizes.mono (hr.grows hit.run).caches, ?_⟩
  have htry : e.tryShortcut (e.callRelay ctx) ctx k (.type t) args
      (H.withCaches (H.caches.hold k)).world = _ := tryShortcut_of_match hmatch
  have hheld : Run.holding k (e.tryShortcut (e.callRelay ctx) ctx k (.type t) args) H.world =
      (some <$> Run.always (e.runShortcut (e.callRelay ctx) (H.caches.shortcutAt k) t args)
        World.release) _ := (always_congr htry World.release).trans (always_map _ _ _ _)
  rw [Run.bind_apply, hheld, ← Run.bind_apply, some_map_bind _ hf]
  exact seen_always World.release_still _

/-! ## Looking for a target -/

theorem updateForType_apply (e : Engine) (relay : CallRelay) (ctx : SpecializerRef)
    (site : CallSiteRef) (shape : SiteShape) (t : TypeRef) (args : List Value) (w : World) :
    e.updateForType relay ctx site shape t args w =
      match Caches.request w.heap ctx shape t w.caches with
      | .error fault c => .error (.error (.bind fault)) { w with caches := c }
      | .ok (.error _) c => .ok none { w with caches := c.setTarget site none }
      | .ok (.ok k) c => Run.holding k (e.tryShortcut relay ctx k (.type t) args)
          { w with caches := c.setTarget site (some (.shortcut k)) } := by
  unfold updateForType
  rw [get_bind]
  cases Caches.request w.heap ctx shape t w.caches with
  | error fault c => rfl
  | ok answer c => cases answer <;> rfl

theorem update_type_apply (e : Engine) (relay : CallRelay) (ctx : SpecializerRef)
    (site : CallSiteRef) (t : TypeRef) (args : List Value) (w : World) :
    e.update relay ctx site (.type t) args w =
      match Caches.request w.heap ctx (w.caches.siteAt site).shape t
          (w.caches.count ctx .misses) with
      | .error fault c => .error (.error (.bind fault)) { w with caches := c }
      | .ok (.error _) c => e.fallback ctx (w.caches.siteAt site).shape.signature (.type t) args
          { w with caches := c.setTarget site none }
      | .ok (.ok k) c => (Run.holding k (e.tryShortcut relay ctx k (.type t) args) >>= fun
            | some v => pure v
            | none => e.fallback ctx (w.caches.siteAt site).shape.signature (.type t) args)
          { w with caches := c.setTarget site (some (.shortcut k)) } := by
  unfold update
  change (e.updateForType relay ctx site (w.caches.siteAt site).shape t args >>= _)
    { w with caches := w.caches.count ctx .misses } = _
  rw [Run.bind_apply, updateForType_apply]
  cases Caches.request w.heap ctx (w.caches.siteAt site).shape t
      (w.caches.count ctx .misses) with
  | error fault c => rfl
  | ok answer c =>
    cases answer with
    | error reason => rfl
    | ok k =>
      dsimp only
      rw [Run.bind_apply]
      cases Run.holding k (e.tryShortcut relay ctx k (.type t) args)
          { w with caches := c.setTarget site (some (.shortcut k)) } with
      | ok v? w' => cases v? <;> rfl
      | error stop w' => rfl

section

variable (hr : Reachable o H) (fits : H.heap.Fits) (has : H.caches.HasSpecializer ctx)
  {shape : SiteShape}

include hr fits has

theorem request_of_refusal {reason : Refusal}
    (hrefusal : H.heap.recipe (H.caches.settings ctx) shape t = .error (.refusal reason)) :
    ∃ c, Caches.request H.heap ctx shape t H.caches = .ok (.error reason) c ∧
      Unseen o H (H.withCaches c) := by
  have answered := Caches.request_spec hr.sane.sound hr.sane.hierarchy ctx shape t
  cases hreq : Caches.request H.heap ctx shape t H.caches with
  | error fault c =>
    rw [hreq] at answered
    cases answered with
    | failed _ _ right =>
      have hfault := (right fits).symm.trans hrefusal
      simp at hfault
  | ok answer c =>
    cases answer with
    | ok k =>
      obtain ⟨-, r, hrecipe, -⟩ := hr.granted fits has hreq
      have hok := hrecipe.symm.trans hrefusal
      simp at hok
    | error reason' =>
      have step : Step o H _ := .request ctx shape t has
      unfold History.afterRequest at step
      simp only [hreq] at step
      rw [hreq] at answered
      cases answered with
      | refused _ _ right =>
        obtain rfl : reason' = reason := by simpa using (right fits).symm.trans hrefusal
        exact ⟨c, rfl, .single step, rfl, rfl⟩

theorem request_of_recipe (hsite : H.caches.HasSite site) (use : o site ctx)
    (hshape : shape = (H.caches.siteAt site).shape) {r : Recipe}
    (hrecipe : H.heap.recipe (H.caches.settings ctx) shape t = .ok r) :
    ∃ k c K, Caches.request H.heap ctx shape t H.caches = .ok (.ok k) c ∧ Unseen o H K ∧
      K.world = ⟨H.heap, c.setTarget site (some (.shortcut k)), H.world.trace⟩ ∧
      (K.heap.typeAt t).version = (K.caches.shortcutAt k).version ∧
      K.caches.Realizes shape.signature (K.caches.shortcutAt k) r := by
  have answered := Caches.request_spec hr.sane.sound hr.sane.hierarchy ctx shape t
  cases hreq : Caches.request H.heap ctx shape t H.caches with
  | error fault c =>
    rw [hreq] at answered
    cases answered with
    | failed _ _ right =>
      have hfault := (right fits).symm.trans hrecipe
      simp at hfault
  | ok answer c =>
    cases answer with
    | error reason =>
      rw [hreq] at answered
      cases answered with
      | refused _ _ right =>
        have hrefused := (right fits).symm.trans hrecipe
        simp at hrefused
    | ok k =>
      obtain ⟨hversion, r', hrecipe', realizes⟩ := hr.granted fits has hreq
      obtain rfl : r' = r := by simpa using hrecipe'.symm.trans hrecipe
      have step : Step o H _ := .request ctx shape t has
      have grows := (hr.grows (.single step)).caches
      unfold History.afterRequest at step grows
      simp only [hreq] at step grows
      have aim := Step.aim (o := o) site ⟨ctx, shape, t, k⟩ List.mem_cons_self
        (hshape.trans (grows.shape site hsite).symm) use
      exact ⟨k, c, _, rfl, ⟨(Relation.ReflTransGen.single step).tail aim, rfl, rfl⟩, rfl, hversion,
        realizes.mono (Caches.setTarget_grows c site _)⟩

end

section

variable (hr : Reachable o H) (fits : H.heap.Fits) (has : H.caches.HasSpecializer ctx)
  (hargs : args.length = (H.caches.siteAt site).shape.signature.arity)

include hr fits has

theorem update_type_ends {reason : Refusal}
    (hrefusal : H.heap.recipe (H.caches.settings ctx) (H.caches.siteAt site).shape t =
      .error (.refusal reason)) :
    EndsAs o H (e.update relay ctx site (.type t) args H.world)
      (e.general (H.caches.siteAt site).shape.signature (.type t) args) := by
  have missed := unseen_count o H ctx .misses
  have grows := (hr.grows missed.run).caches
  rw [← grows.settings ctx has] at hrefusal
  obtain ⟨c, hreq, asked⟩ := request_of_refusal (hr.trans missed.run) fits
    (has.trans_le grows.specializers) hrefusal
  have hreq : Caches.request H.world.heap ctx (H.world.caches.siteAt site).shape t
    (H.world.caches.count ctx .misses) = _ := hreq
  rw [update_type_apply, hreq]
  have cleared : Unseen o H (H.withCaches (c.setTarget site none)) :=
    (missed.trans asked).trans ⟨.single (.clear site), rfl, rfl⟩
  exact .after cleared (fallback_ends _ _)

include hargs in
theorem update_type_cuts (hsite : H.caches.HasSite site) (use : o site ctx) {r : Recipe}
    (hrecipe : H.heap.recipe (H.caches.settings ctx) (H.caches.siteAt site).shape t = .ok r) :
    e.CutsAs ctx (H.caches.siteAt site).shape.signature r t args o H
      (e.update (e.callRelay ctx) ctx site (.type t) args H.world) := by
  have missed := unseen_count o H ctx .misses
  have grows := (hr.grows missed.run).caches
  rw [← grows.settings ctx has] at hrecipe
  obtain ⟨k, c, K, hreq, aimed, hK, hversion, realizes⟩ := request_of_recipe
    (hr.trans missed.run) fits (has.trans_le grows.specializers)
    (hsite.trans_le grows.sites) use rfl hrecipe
  have hreq : Caches.request H.world.heap ctx (H.world.caches.siteAt site).shape t
    (H.world.caches.count ctx .misses) = _ := hreq
  rw [update_type_apply, hreq]
  refine .after (missed.trans aimed) ?_
  have hmatch := matches?_eq_some_iff.mpr ⟨hversion, hargs.trans realizes.arity.symm⟩
  have cuts := holding_cuts e ctx ((hr.trans missed.run).trans aimed.run) hmatch realizes
    (f := fun
      | some v => pure v
      | none => e.fallback ctx (H.world.caches.siteAt site).shape.signature (.type t) args)
    fun _ => rfl
  rwa [hK] at cuts

end

/-! ## Calls of types -/

section

variable (hr : Reachable o H) (fits : H.heap.Fits)
  (hargs : args.length = (H.caches.siteAt site).shape.signature.arity)

include hr fits hargs

theorem invoke_cuts_of_hit (enabled : (H.caches.settings ctx).enabled = true) {k : ShortcutRef}
    (hit : H.world.Hits site k t args.length) :
    ∃ s r, o site s ∧
      H.heap.recipe (H.caches.settings s) (H.caches.siteAt site).shape t = .ok r ∧
      e.CutsAs ctx (H.caches.siteAt site).shape.signature r t args o H
        (e.invoke ctx site (.type t) args H.world) := by
  obtain ⟨htarget, hmatch⟩ := id hit
  obtain ⟨g, hg, rfl, hshape, granted⟩ := hr.sane.target site k htarget
  have current := (hr.fresh fits).current g hg
  obtain ⟨hversion, -⟩ := matches?_eq_some_iff.mp hmatch
  obtain ⟨-, r, hrecipe, realizes⟩ := current.right t (current.has hversion) hversion
  rw [hshape] at hrecipe realizes
  have unseen := (unseen_hold o H g.shortcut).trans (unseen_count o _ ctx .fastHits)
  refine ⟨g.specializer, r, granted, hrecipe, _, _, unseen,
    realizes.mono (hr.grows unseen.run).caches, ?_⟩
  rw [invoke_of_hit hargs enabled hit]
  exact seen_always World.release_still _

variable (has : H.caches.HasSpecializer ctx) (hsite : H.caches.HasSite site) (use : o site ctx)

include has

include hsite use in
/-- A call that is cut short goes as a recipe of the type says. -/
theorem invoke_cuts (cut : H.world.CutsShort ctx site t args.length) :
    ∃ s r, o site s ∧
      H.heap.recipe (H.caches.settings s) (H.caches.siteAt site).shape t = .ok r ∧
      e.CutsAs ctx (H.caches.siteAt site).shape.signature r t args o H
        (e.invoke ctx site (.type t) args H.world) := by
  obtain ⟨enabled, hfound⟩ := cut
  by_cases hit : ∃ k, H.world.Hits site k t args.length
  · obtain ⟨k, hit⟩ := hit
    exact invoke_cuts_of_hit hr fits hargs enabled hit
  · obtain ⟨r, hrecipe⟩ := hfound.resolve_left hit
    refine ⟨ctx, r, use, hrecipe, ?_⟩
    rcases invoke_of_no_hit (e := e) hargs enabled (fun k h => hit ⟨k, h⟩) with heq | ⟨k, heq⟩
    · rw [heq]
      exact update_type_cuts hr fits has hargs hsite use hrecipe
    · rw [heq]
      have held := unseen_hold o H k
      exact .after held (.always World.release_still
        (update_type_cuts (hr.trans held.run) fits has hargs hsite use hrecipe))

/-- Any other call goes as the general protocol says. -/
theorem invoke_ends (cut : ¬ H.world.CutsShort ctx site t args.length) :
    EndsAs o H (e.invoke ctx site (.type t) args H.world)
      (e.general (H.caches.siteAt site).shape.signature (.type t) args) := by
  obtain ⟨reason, hrefusal⟩ := World.refusal_of_not_cutsShort cut
  have hupdate : EndsAs o H (e.update (e.callRelay ctx) ctx site (.type t) args H.world) _ :=
    update_type_ends hr fits has hrefusal
  unfold invoke
  rw [invokeWith_eq e _ ctx _ hargs]
  cases htarget : (H.caches.siteAt site).target with
  | none => exact hupdate
  | some target =>
    cases target with
    | function f plan =>
      simp only [reduceCtorEq, if_false]
      exact hupdate
    | shortcut k =>
      dsimp only
      rw [holding_apply]
      have held := unseen_hold o H k
      refine .after held (.always (fun _ => ⟨rfl, rfl⟩) ?_)
      split
      · rename_i enabled
        have hmatch := fun h => cut ⟨enabled, Or.inl ⟨k, htarget, h⟩⟩
        have skip : e.executeShortcut (e.callRelay ctx) ctx k site (.type t) args
            (H.withCaches (H.caches.hold k)).world = _ := executeShortcut_of_no_match hmatch
        rw [skip]
        exact update_type_ends (hr.trans held.run) fits has hrefusal
      · exact fallback_ends _ _

end

end Engine

namespace History

/-! ## Where samples start from -/

/-- These functions and one class exist, and there is a call site. -/
def opening (functions : Array FunctionRecord) (c : ClassSpec) (shape : SiteShape) : History :=
  let H := start functions
  let H := H.withHeap (H.heap.tryDefine c)
  H.withCaches (H.caches.addSite shape).2

theorem opening_reachable (o : Usage) (functions : Array FunctionRecord) {c : ClassSpec}
    (bases : c.bases = []) (layout : c.layout = none) (shape : SiteShape) :
    Reachable o (opening functions c shape) := by
  have defined : Step o (start functions) _ :=
    .heap (.tryDefine (c := c) (by simp [bases]) (by simp [layout]))
  exact ⟨functions, (Relation.ReflTransGen.single defined).tail (.addSite shape)⟩

end History

namespace Engine

open History

/-- The call site made first was called in the context of the shared specializer, with bodies that
do nothing. -/
def warm (H : History) (t : TypeRef) (args : List Value) : World :=
  Run.world ((constant .none).invoke .shared ⟨0⟩ (.type t) args H.world)

theorem warm_reachable {H : History} (hr : Reachable (fun _ _ => True) H)
    (has : H.caches.HasSpecializer .shared) (hsite : H.caches.HasSite ⟨0⟩) (t : TypeRef)
    (args : List Value) : ∃ K, Reachable (fun _ _ => True) K ∧ K.world = warm H t args := by
  have bodies : Bodies (fun _ _ => True) H.caches True (constant .none) := constant_bodies .none
  obtain ⟨K, run, hK⟩ := invoke_lands bodies ⟨hr, .refl _⟩ has hsite trivial (.type t) args
  exact ⟨K, hr.trans run, hK⟩

end Engine

end InlineCache
