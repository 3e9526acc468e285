import InlineCache.Proofs.General

/-! # Calls through call sites go on by steps

Whatever a call through a call site does to the world, it does by the steps of a history: it asks
for a shortcut, aims the call site, enters bodies. -/

namespace InlineCache.Engine

open History

variable {o : Usage} {c₀ : Caches} {B : Prop} {e : Engine} {H K : History} {ε α β : Type}

/-! ## Single steps as runs -/

theorem get_bind (f : World → Run ε β) (w : World) : (get >>= f : Run ε β) w = f w w := rfl

theorem caches_bind (f : Caches → Run ε β) (w : World) :
    (Run.caches >>= f : Run ε β) w = f w.caches w := rfl

theorem heap_bind (f : Heap → Run ε β) (w : World) :
    (Run.heap >>= f : Run ε β) w = f w.heap w := rfl

theorem count_bind (s : SpecializerRef) (n : Counter) (f : Unit → Run ε β) (H : History) :
    (Run.count s n >>= f : Run ε β) H.world = f () (H.withCaches (H.caches.count s n)).world := rfl

theorem set_bind (w w' : World) (f : PUnit → Run ε β) : (set w' >>= f : Run ε β) w = f ⟨⟩ w' := rfl

theorem relaySite_bind (r : RelayRef) (f : CallSiteRef → Run ε β) (H : History) :
    (Run.onCaches (·.relaySite r) >>= f : Run ε β) H.world =
      f (H.caches.relaySite r).1 (H.withCaches (H.caches.relaySite r).2).world := rfl

theorem world_always (x : Run ε α) (f : World → World) (w : World) :
    Run.world (Run.always x f w) = f (Run.world (x w)) := by
  unfold Run.always
  cases x w <;> rfl

theorem holding_apply (k : ShortcutRef) (x : Run ε α) (H : History) :
    Run.holding k x H.world = Run.always x (fun w => { w with caches := w.caches.release })
      (H.withCaches (H.caches.hold k)).world := rfl

theorem lands_holding {k : ShortcutRef} {x : Run ε α}
    (hx : Lands o (H.withCaches (H.caches.hold k))
      (Run.world (x (H.withCaches (H.caches.hold k)).world))) :
    Lands o H (Run.world (Run.holding k x H.world)) := by
  rw [holding_apply, world_always]
  obtain ⟨K, run, hK⟩ := hx
  rw [← hK]
  exact Reaches.lands (.head (.held _) run) (Step.held _).lands

/-! ## Shortcuts -/

theorem count_moves (s : SpecializerRef) (n : Counter) : Moves o c₀ (Run.count s n : Run ε Unit) :=
  fun _ _ => (Step.count s n).lands

theorem fallback_moves (bodies : Bodies o c₀ B e) (ctx : SpecializerRef) (s : Signature)
    (callee : Value) (args : List Value) : Moves o c₀ (e.fallback ctx s callee args) :=
  (count_moves ctx _).bind fun _ => (general_steady bodies s callee args).moves

section

variable {relay : CallRelay}

theorem runAllocation_moves (bodies : Bodies o c₀ B e)
    (hrelay : ∀ r v args, Moves o c₀ (relay r v args)) (a : Allocation) (t : TypeRef)
    (args : List Value) : Moves o c₀ (e.runAllocation relay a t args) :=
  runAllocation_closed (moves_closed o c₀) (fun E => (bodies.enter E).moves) hrelay a t
    args

theorem runInitializer_moves (hrelay : ∀ r v args, Moves o c₀ (relay r v args))
    (i : Option RelayRef) (t : TypeRef) (v : Value) (args : List Value) :
    Moves o c₀ (runInitializer relay i t v args) :=
  runInitializer_closed (moves_closed o c₀) hrelay i t v args

theorem runShortcut_moves (bodies : Bodies o c₀ B e)
    (hrelay : ∀ r v args, Moves o c₀ (relay r v args)) (k : Shortcut) (t : TypeRef)
    (args : List Value) : Moves o c₀ (e.runShortcut relay k t args) :=
  runShortcut_closed (moves_closed o c₀) (fun E => (bodies.enter E).moves) hrelay k t args

theorem tryShortcut_moves (bodies : Bodies o c₀ B e)
    (hrelay : ∀ r v args, Moves o c₀ (relay r v args)) (ctx : SpecializerRef) (k : ShortcutRef)
    (callee : Value) (args : List Value) :
    Moves o c₀ (e.tryShortcut relay ctx k callee args) := by
  intro H hfrom
  unfold tryShortcut
  rw [get_bind]
  cases matches? H.world (H.world.caches.shortcutAt k) callee args.length with
  | none => exact .here o H
  | some t =>
    refine (count_moves ctx _).bind (fun _ => ?_) H hfrom
    exact (runShortcut_moves bodies hrelay _ t args).bind fun v => (steady_pure (B := B) _).moves

theorem updateForType_lands (bodies : Bodies o c₀ B e)
    (hrelay : ∀ r v args, Moves o c₀ (relay r v args)) (hfrom : From o c₀ H)
    {ctx : SpecializerRef} {site : CallSiteRef} (hctx : H.caches.HasSpecializer ctx)
    (hsite : H.caches.HasSite site) (use : o site ctx) (t : TypeRef) (args : List Value) :
    Lands o H (Run.world
      (e.updateForType relay ctx site (H.caches.siteAt site).shape t args H.world)) := by
  unfold updateForType
  rw [get_bind]
  have step : Step o H _ := .request ctx (H.caches.siteAt site).shape t hctx
  have grows := (step.sane hfrom.reachable.sane).2
  unfold History.afterRequest at step grows
  cases hr : Caches.request H.world.heap ctx (H.caches.siteAt site).shape t H.world.caches with
  | error err c =>
    rw [hr] at step
    exact step.lands
  | ok answer c =>
    rw [hr] at step grows
    cases answer with
    | error reason =>
      dsimp only
      rw [set_bind]
      exact Reaches.lands (.single step) (Step.clear site).lands
    | ok k =>
      dsimp only
      rw [set_bind]
      have aim := Step.aim (o := o) site ⟨ctx, (H.caches.siteAt site).shape, t, k⟩
        List.mem_cons_self (grows.caches.shape site hsite).symm use
      have run : Reaches o H _ := (Relation.ReflTransGen.single step).tail aim
      apply run.lands
      apply lands_holding
      apply tryShortcut_moves bodies hrelay
      exact hfrom.trans (run.tail (.held _))

theorem update_function_lands (hfrom : From o c₀ H) {site : CallSiteRef}
    (hsite : H.caches.HasSite site) (f : FunctionRef) {plan : Option (List Nat)}
    (hplan : plan = Plan.make? (H.heap.functionAt f) (H.caches.siteAt site).shape.signature)
    {x : Run ε α} (hx : Lands o H (Run.world (x H.world))) :
    Lands o H (Run.world (Run.always x
      (fun w => { w with caches := w.caches.setTarget site (some (.function f plan)) })
      H.world)) := by
  obtain ⟨K, run, hK⟩ := hx
  rw [world_always, ← hK, hplan]
  have grows := hfrom.reachable.grows run
  have step := Step.plan (o := o) (H := K) site f
  rw [Heap.functionAt, grows.heap.functions, grows.caches.shape site hsite] at step
  exact run.lands step.lands

/-- A call site may get a shortcut from this specializer, or it never gets one for this callee. -/
def Usable (o : Usage) (c : Caches) (site : CallSiteRef) (ctx : SpecializerRef) (callee : Value) :
    Prop :=
  (c.HasSpecializer ctx ∧ o site ctx) ∨ ∀ t, callee ≠ .type t

theorem update_lands (bodies : Bodies o c₀ B e)
    (hrelay : ∀ r v args, Moves o c₀ (relay r v args)) (hfrom : From o c₀ H)
    {ctx : SpecializerRef} {site : CallSiteRef} {callee : Value} (hsite : H.caches.HasSite site)
    (use : Usable o H.caches site ctx callee) (args : List Value) :
    Lands o H (Run.world (e.update relay ctx site callee args H.world)) := by
  unfold update
  rw [count_bind, caches_bind]
  have run : Reaches o H _ := .single (Step.count ctx .misses)
  have grows := (hfrom.reachable.grows run).caches
  have hfrom := hfrom.trans run
  have hsite : (H.withCaches (H.caches.count ctx .misses)).caches.HasSite site :=
    lt_of_lt_of_le hsite grows.sites
  apply run.lands
  dsimp only
  split
  · rename_i t
    obtain ⟨hctx, use⟩ := use.resolve_right fun h => h t rfl
    apply lands_bind (updateForType_lands bodies hrelay hfrom
      (lt_of_lt_of_le hctx grows.specializers) hsite use t args)
    intro v? K run' _
    cases v? with
    | some v => exact .here o K
    | none => exact fallback_moves bodies ctx _ _ _ K (hfrom.trans run')
  · rename_i f
    rw [heap_bind]
    apply update_function_lands hfrom hsite f rfl
    exact ((callPlanned_steady bodies f _ _ args).mapError _).moves _ hfrom
  · exact fallback_moves bodies ctx _ _ _ _ hfrom

end

theorem Usable.mono {c c' : Caches} {site : CallSiteRef} {ctx : SpecializerRef} {callee : Value}
    (use : Usable o c site ctx callee) (g : c.Grows c') : Usable o c' site ctx callee :=
  use.imp_left fun ⟨hctx, h⟩ => ⟨lt_of_lt_of_le hctx g.specializers, h⟩

theorem invokeWith_eq (e : Engine) (relay : CallRelay) (ctx : SpecializerRef) {site : CallSiteRef}
    (callee : Value) {args : List Value} {w : World}
    (hargs : args.length = (w.caches.siteAt site).shape.signature.arity) :
    e.invokeWith relay ctx site callee args w =
      (match (w.caches.siteAt site).target with
        | none => e.update relay ctx site callee args
        | some (.shortcut k) =>
          Run.holding k <|
            if (w.caches.settings ctx).enabled then e.executeShortcut relay ctx k site callee args
            else e.fallback ctx (w.caches.siteAt site).shape.signature callee args
        | some (.function f plan) =>
          if callee = Value.function f then
            Run.mapError .runtime (e.callPlanned f plan (w.caches.siteAt site).shape.signature args)
          else e.update relay ctx site callee args) w := by
  unfold invokeWith
  rw [caches_bind]
  dsimp only
  exact congrFun (if_neg (not_not.mpr hargs)) w

theorem invokeWith_of_ne (e : Engine) (relay : CallRelay) (ctx : SpecializerRef)
    {site : CallSiteRef} (callee : Value) {args : List Value} {w : World}
    (hargs : args.length ≠ (w.caches.siteAt site).shape.signature.arity) :
    e.invokeWith relay ctx site callee args w =
      .error (.error (.bind (.argumentCount (w.caches.siteAt site).shape.signature.arity
        args.length))) w := by
  unfold invokeWith
  rw [caches_bind]
  dsimp only
  exact congrFun (if_pos hargs) w

theorem invokeWith_lands {relay : CallRelay} (bodies : Bodies o c₀ B e)
    (hrelay : ∀ r v args, Moves o c₀ (relay r v args)) (hfrom : From o c₀ H)
    {ctx : SpecializerRef} {site : CallSiteRef} {callee : Value} (hsite : H.caches.HasSite site)
    (use : Usable o H.caches site ctx callee) (args : List Value) :
    Lands o H (Run.world (e.invokeWith relay ctx site callee args H.world)) := by
  have hupdate := update_lands bodies hrelay hfrom hsite use args
  by_cases hargs : args.length = (H.caches.siteAt site).shape.signature.arity
  · rw [invokeWith_eq e relay ctx callee hargs]
    cases (H.caches.siteAt site).target with
    | none => exact hupdate
    | some target =>
      cases target with
      | shortcut k =>
        apply lands_holding
        have run : Reaches o H _ := .single (Step.held { H.caches.held with
          shortcuts := k :: H.caches.held.shortcuts })
        have grows := (hfrom.reachable.grows run).caches
        have hfrom := hfrom.trans run
        split
        · apply lands_bind (tryShortcut_moves bodies hrelay ctx k callee args _ hfrom)
          intro v? K run' _
          cases v? with
          | some v => exact .here o K
          | none =>
            have grows' := (hfrom.reachable.grows run').caches
            exact update_lands bodies hrelay (hfrom.trans run')
              (lt_of_lt_of_le (lt_of_lt_of_le hsite grows.sites) grows'.sites)
              ((use.mono grows).mono grows') args
        · exact fallback_moves bodies ctx _ _ _ _ hfrom
      | function f plan =>
        dsimp only
        split
        · exact ((callPlanned_steady bodies f plan _ args).mapError _).moves _ hfrom
        · exact hupdate
  · rw [invokeWith_of_ne e relay ctx callee hargs]
    exact .here o H

theorem relaySite_spec (hs : H.caches.Sound H.heap) (r : RelayRef) :
    (H.caches.relaySite r).2.HasSite (H.caches.relaySite r).1 ∧
      ((H.caches.relaySite r).2.siteAt (H.caches.relaySite r).1).shape =
        (H.caches.relayAt r).shape := by
  unfold Caches.relaySite
  cases hr : (H.caches.relayAt r).site with
  | some s => exact hs.site r s hr
  | none =>
    constructor
    · change H.caches.sites.size < (H.caches.sites.push _).size
      simp
    · exact congrArg CallSite.shape ((Caches.siteAt_addSite _ _ _).trans (if_pos rfl))

theorem relayWithin_moves (bodies : Bodies o c₀ B e) (ctx : SpecializerRef) (depth : Nat)
    (r : RelayRef) (v : Value) (args : List Value) :
    Moves o c₀ (e.relayWithin ctx depth r v args) := by
  -- A call site inside of a relay calls relays that may nest one less deep.
  induction depth generalizing r v args with
  | zero => exact fun H _ => .here o H
  | succ depth ih =>
    intro H hfrom
    unfold relayWithin
    rw [relaySite_bind, caches_bind]
    have hspec := relaySite_spec hfrom.reachable.sane.sound r
    have run : Reaches o H _ := .single (Step.relaySite r)
    have hfrom := hfrom.trans run
    apply run.lands
    apply invokeWith_lands bodies ih hfrom hspec.1
    exact Or.inr fun t => hfrom.reachable.sane.sound.callable r t

theorem invoke_lands (bodies : Bodies o c₀ B e) (hfrom : From o c₀ H) {ctx : SpecializerRef}
    {site : CallSiteRef} (hctx : H.caches.HasSpecializer ctx) (hsite : H.caches.HasSite site)
    (use : o site ctx) (callee : Value) (args : List Value) :
    Lands o H (Run.world (e.invoke ctx site callee args H.world)) :=
  invokeWith_lands bodies (relayWithin_moves bodies ctx e.depth) hfrom hsite
    (Or.inl ⟨hctx, use⟩) args

end InlineCache.Engine
