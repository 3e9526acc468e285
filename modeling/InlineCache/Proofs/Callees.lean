import InlineCache.Proofs.Entries
import InlineCache.Proofs.Service

/-! # Callees that are no types

Whatever target a call site has, a callee that is no type is called the general way, once. All that
comes before is counted. -/

namespace InlineCache

namespace Caches

/-- Only counters and what is held may differ. -/
structure Tallied (c c' : Caches) : Prop where
  sites : c'.sites = c.sites
  shortcuts : c'.shortcuts = c.shortcuts
  relays : c'.relays = c.relays
  specializer : ∀ s, ∃ counters, c'.specializerAt s = { c.specializerAt s with counters }

theorem Tallied.trans {c₁ c₂ c₃ : Caches} (a : Tallied c₁ c₂) (b : Tallied c₂ c₃) :
    Tallied c₁ c₃ := by
  refine ⟨b.sites.trans a.sites, b.shortcuts.trans a.shortcuts, b.relays.trans a.relays, ?_⟩
  intro s
  obtain ⟨_, h₂₃⟩ := b.specializer s
  obtain ⟨_, h₁₂⟩ := a.specializer s
  exact ⟨_, by rw [h₂₃, h₁₂]⟩

theorem Tallied.held (c : Caches) (held : Held) : Tallied c { c with held } :=
  ⟨rfl, rfl, rfl, fun _ => ⟨_, rfl⟩⟩

theorem Tallied.refl (c : Caches) : Tallied c c := .held c c.held

theorem Tallied.count (c : Caches) (ctx : SpecializerRef) (n : Counter) :
    Tallied c (c.count ctx n) := by
  refine ⟨rfl, rfl, rfl, fun s => ?_⟩
  rw [Caches.count, specializerAt_modifySpecializer]
  split <;> exact ⟨_, rfl⟩

end Caches

namespace Engine

open History

variable {o : Usage} {e : Engine} {relay : CallRelay} {H : History} {ctx : SpecializerRef}
  {site : CallSiteRef} {callee : Value} {args : List Value} {w w' : World} {ε α : Type}

/-! ## What does not depend on caches -/

/-- Both runs enter the same body first, with the same arguments, or both end alike without entering
any. -/
inductive StartsAlike (w : World) (r r' : EStateM.Result (Stop ε) World α) : Prop
  | entered {E : Entry} (next : EntersNext w r E) (next' : EntersNext w r' E)
  | quiet (same : Run.seen r = Run.seen r') (none : (Run.world r).trace = w.trace)

/-- Two worlds that differ in caches alone. -/
structure SameButCaches (w w' : World) : Prop where
  heap : w'.heap = w.heap
  trace : w'.trace = w.trace

theorem StartsAlike.of_trace {v : World} {r r' : EStateM.Result (Stop ε) World α}
    (same : v.trace = w.trace) (h : StartsAlike v r r') : StartsAlike w r r' := by
  cases h with
  | entered next next' =>
    rw [EntersNext, same] at next next'
    exact .entered next next'
  | quiet seen none => exact .quiet seen (none.trans same)

theorem StartsAlike.of_seen {r₁ r₂ r₃ : EStateM.Result (Stop ε) World α}
    (same : Run.seen r₁ = Run.seen r₂) (h : StartsAlike w r₂ r₃) : StartsAlike w r₁ r₃ := by
  have trace : (Run.world r₁).trace = (Run.world r₂).trace := congrArg (·.2.2) same
  cases h with
  | entered next next' => exact .entered ((entersNext_congr trace).mpr next) next'
  | quiet seen none => exact .quiet (same.trans seen) (trace.trans none)

/-- Nothing is taken from the trace, and caches do not sway what happens up to the first entry. -/
structure StartsBlind (x : Run ε α) : Prop where
  extend : Run.Extends x
  alike : ∀ w w', SameButCaches w w' → StartsAlike w (x w) (x w')

theorem StartsBlind.bind {β : Type} {x : Run ε α} {f : α → Run ε β} (hx : StartsBlind x)
    (hf : ∀ a, StartsBlind (f a)) : StartsBlind (x >>= f) := by
  refine ⟨hx.extend.bind fun a => (hf a).extend, fun w w' same => ?_⟩
  cases hx.alike w w' same with
  | entered next next' =>
    exact .entered (next.bind fun a => (hf a).extend) (next'.bind fun a => (hf a).extend)
  | quiet seen none =>
    rw [Run.bind_apply, Run.bind_apply]
    cases h : x w with
    | ok a w₁ =>
      rw [h] at seen none
      obtain ⟨w₂, h', heap, trace⟩ := Run.eq_ok_of_seen seen.symm.symm rfl
      rw [h']
      exact ((hf a).alike w₁ w₂ ⟨heap.symm, trace.symm⟩).of_trace none
    | error s w₁ =>
      rw [h] at seen none
      cases h' : x w' with
      | ok a w₂ => simp [h'] at seen
      | error s' w₂ =>
        rw [h'] at seen
        exact .quiet (by simpa using seen) none

theorem startsBlind_closed : Closed fun x => StartsBlind x where
  pure a := ⟨Run.extends_closed.pure a, fun w w' same =>
    .quiet (by simp [same.heap, same.trace]) rfl⟩
  throw s := ⟨Run.extends_closed.throw s, fun w w' same =>
    .quiet (congrArg (Except.error s, ·) (Prod.ext same.heap.symm same.trace.symm)) rfl⟩
  heap := ⟨Run.extends_closed.heap, fun w w' same => .quiet (by
    change (Except.ok w.heap, w.heap, w.trace) = (Except.ok w'.heap, w'.heap, w'.trace)
    rw [same.heap, same.trace]) rfl⟩
  onHeap {ε α f} hf := ⟨Run.extends_closed.onHeap hf, fun w w' same => .quiet (by
    change (Except.ok (f w.heap).1, (f w.heap).2, w.trace) =
      (Except.ok (f w'.heap).1, (f w'.heap).2, w'.trace)
    rw [same.heap, same.trace]) rfl⟩
  bind hx hf := hx.bind hf
  mapError f hx := by
    refine ⟨Run.extends_closed.mapError f hx.extend, fun w w' same => ?_⟩
    cases hx.alike w w' same with
    | entered next next' =>
      exact .entered (entersNext_mapError.mpr next) (entersNext_mapError.mpr next')
    | quiet seen none =>
      refine .quiet (seen_mapError f seen) ?_
      rwa [world_mapError]

theorem startsBlind_enter (extend : e.Extends) (E : Entry) : StartsBlind (e.enter E) := by
  refine ⟨extend.enter E, fun w w' same => .entered (extend.enters E w) ?_⟩
  have next := extend.enters E w'
  rwa [EntersNext, same.trace] at next

theorem general_starts_blind (extend : e.Extends) (s : Signature) (callee : Value)
    (args : List Value) : StartsBlind (e.general s callee args) :=
  general_closed startsBlind_closed (startsBlind_enter extend) s callee args

/-! ## Counted, then called -/

/-- The run ends like `x`, started once something had been counted. -/
def EndsTallied (w : World) (r : EStateM.Result (Stop ε) World α) (x : Run ε α) : Prop :=
  ∃ c, w.caches.Tallied c ∧ Run.seen r = Run.seen (x { w with caches := c })

theorem EndsTallied.after {r : EStateM.Result (Stop ε) World α} {x : Run ε α} {c : Caches}
    (tallied : w.caches.Tallied c) (ends : EndsTallied { w with caches := c } r x) :
    EndsTallied w r x := by
  obtain ⟨c', tallied', same⟩ := ends
  exact ⟨c', tallied.trans tallied', same⟩

theorem EndsTallied.always {x y : Run ε α} {f : World → World} {v : World}
    (hf : ∀ w, (f w).heap = w.heap ∧ (f w).trace = w.trace) (ends : EndsTallied w (y v) x) :
    EndsTallied w (Run.always y f v) x := by
  obtain ⟨c, tallied, same⟩ := ends
  exact ⟨c, tallied, (seen_always hf v).trans same⟩

theorem update_of_plain (hcallee : ∀ t, callee ≠ .type t) (hfun : ∀ f, callee ≠ .function f) :
    e.update relay ctx site callee args w =
      e.general (w.caches.siteAt site).shape.signature callee args
        { w with caches := (w.caches.count ctx .misses).count ctx .fallbacks } := by
  cases callee with
  | type t => exact absurd rfl (hcallee t)
  | function f => exact absurd rfl (hfun f)
  | _ => rfl

theorem update_of_function (e : Engine) (relay : CallRelay) (ctx : SpecializerRef)
    (site : CallSiteRef) (f : FunctionRef) (args : List Value) (w : World) :
    ∃ plan, plan = Plan.make? (w.heap.functionAt f) (w.caches.siteAt site).shape.signature ∧
      e.update relay ctx site (.function f) args w =
        Run.always
          (Run.mapError .runtime
            (e.callPlanned f plan (w.caches.siteAt site).shape.signature args))
          (fun w => { w with caches := w.caches.setTarget site (some (.function f plan)) })
          { w with caches := w.caches.count ctx .misses } :=
  ⟨_, rfl, rfl⟩

theorem fallback_ends_tallied (s : Signature) :
    EndsTallied w (e.fallback ctx s callee args w) (e.general s callee args) :=
  ⟨_, .count _ ctx .fallbacks, rfl⟩

section

variable (hcallee : ∀ t, callee ≠ .type t)
  (hargs : args.length = (w.caches.siteAt site).shape.signature.arity)

include hcallee hargs

theorem update_ends_tallied :
    EndsTallied w (e.update relay ctx site callee args w)
      (e.general (w.caches.siteAt site).shape.signature callee args) := by
  by_cases hfun : ∃ f, callee = .function f
  · obtain ⟨f, rfl⟩ := hfun
    obtain ⟨plan, hplan, heq⟩ := update_of_function e relay ctx site f args w
    rw [heq]
    refine .always (fun _ => ⟨rfl, rfl⟩) ⟨_, .count _ ctx .misses, ?_⟩
    exact congrArg Run.seen
      (callPlanned_general (w := { w with caches := w.caches.count ctx .misses }) hplan hargs)
  · rw [update_of_plain hcallee (not_exists.mp hfun)]
    exact ⟨_, (Caches.Tallied.count _ ctx .misses).trans (.count _ ctx .fallbacks), rfl⟩

theorem invokeWith_ends_tallied
    (planned : ∀ f plan, (w.caches.siteAt site).target = some (.function f plan) →
      plan = Plan.make? (w.heap.functionAt f) (w.caches.siteAt site).shape.signature) :
    EndsTallied w (e.invokeWith relay ctx site callee args w)
      (e.general (w.caches.siteAt site).shape.signature callee args) := by
  have hupdate : EndsTallied w (e.update relay ctx site callee args w) _ :=
    update_ends_tallied hcallee hargs
  rw [invokeWith_eq e relay ctx callee hargs]
  cases htarget : (w.caches.siteAt site).target with
  | none => exact hupdate
  | some target =>
    cases target with
    | shortcut k =>
      have held : w.caches.Tallied (w.hold k).caches := .held w.caches _
      refine .after held (.always (v := w.hold k) World.release_still ?_)
      split
      · unfold executeShortcut
        rw [Run.bind_apply, tryShortcut_of_not_type hcallee]
        exact update_ends_tallied (w := w.hold k) hcallee hargs
      · exact fallback_ends_tallied (w := w.hold k) _
    | function f plan =>
      dsimp only
      split
      · rename_i heq
        subst heq
        rw [callPlanned_general (planned f plan htarget) hargs]
        exact ⟨_, .refl _, rfl⟩
      · exact hupdate

end

/-! ## The general way, spelled out -/

theorem general_of_laid {s : Signature} {laid : CallArgs}
    (h : s.layOut w.heap.typeName args = .ok laid) :
    e.general s callee args w = Run.mapError .runtime (e.call callee laid) w := by
  unfold general callWritten
  apply mapError_congr
  rw [heap_bind, h]
  rfl

theorem general_of_fault {s : Signature} {fault : RuntimeError}
    (h : s.layOut w.heap.typeName args = .error fault) :
    e.general s callee args w = .error (.error (.runtime fault)) w := by
  unfold general callWritten Run.mapError
  rw [heap_bind, h]
  rfl

theorem call_of_not_callable (hf : ∀ f, callee.callee ≠ .function f)
    (hb : ∀ b, callee.callee ≠ .builtin b) (ht : ∀ t, callee.callee ≠ .type t) (laid : CallArgs) :
    e.call callee laid w = .error (.error (.notCallable (w.heap.typeName callee.callee))) w := by
  unfold call callWithin
  cases h : callee.callee with
  | function f => exact absurd h (hf f)
  | builtin b => exact absurd h (hb b)
  | type t => exact absurd h (ht t)
  | _ => rfl

/-! ## The target -/

/-- The run leaves the target of the call site as it was. -/
def LeavesTarget (site : CallSiteRef) (x : Run ε α) : Prop :=
  ∀ w, ((Run.world (x w)).caches.siteAt site).target = (w.caches.siteAt site).target

theorem leavesTarget_closed (site : CallSiteRef) : Closed fun x => LeavesTarget site x where
  pure _ _ := rfl
  throw _ _ := rfl
  heap _ := rfl
  onHeap _ _ := rfl
  bind {_ _ _ x f} hx hf w := by
    have first := hx w
    rw [Run.bind_apply]
    cases h : x w with
    | ok a w' =>
      rw [h] at first
      exact (hf a w').trans first
    | error s w' =>
      rw [h] at first
      exact first
  mapError f hx w := by
    rw [world_mapError]
    exact hx w

theorem update_leaves_target (hcallee : ∀ t, callee ≠ .type t) (hfun : ∀ f, callee ≠ .function f)
    (leaves : ∀ E, LeavesTarget site (e.run E)) :
    LeavesTarget site (e.update relay ctx site callee args) := by
  intro w
  rw [update_of_plain hcallee hfun]
  refine general_closed (leavesTarget_closed site) (fun E w => ?_) _ callee args _
  exact leaves E { w with trace := w.trace.push E }

/-! ## Main theorem -/

/-- A callee that is no type is called the general way, whatever target the call site has and
whatever the settings are. Once something was counted, the arguments are laid out and the callee is
called with them, once. So the same body is entered with the same arguments as in the general way,
or the same error is given and none is entered; a fault in the arguments comes before a callee that
cannot be called. A callee that is no function either leaves the target alone. -/
theorem invoke_calls_callee (e : Engine) (ctx : SpecializerRef) (callee : Value) (args : List Value)
    (hr : Reachable o H) (hcallee : ∀ t, callee ≠ .type t)
    (hargs : args.length = (H.caches.siteAt site).shape.signature.arity) :
    (∃ c, H.caches.Tallied c ∧
      Run.seen (e.invoke ctx site callee args H.world) =
        Run.seen (e.general (H.caches.siteAt site).shape.signature callee args
          { H.world with caches := c }) ∧
      ∀ laid, (H.caches.siteAt site).shape.signature.layOut H.heap.typeName args = .ok laid →
        Run.seen (e.invoke ctx site callee args H.world) =
          Run.seen (Run.mapError CallError.runtime (e.call callee laid)
            { H.world with caches := c })) ∧
    (∀ fault, (H.caches.siteAt site).shape.signature.layOut H.heap.typeName args = .error fault →
      Run.seen (e.invoke ctx site callee args H.world) =
        (.error (.error (.runtime fault)), H.heap, H.world.trace)) ∧
    (∀ laid, (H.caches.siteAt site).shape.signature.layOut H.heap.typeName args = .ok laid →
      (∀ f, callee.callee ≠ .function f) → (∀ b, callee.callee ≠ .builtin b) →
      (∀ t, callee.callee ≠ .type t) →
      Run.seen (e.invoke ctx site callee args H.world) =
        (.error (.error (.runtime (.notCallable (H.heap.typeName callee.callee)))), H.heap,
          H.world.trace)) ∧
    (e.Extends → StartsAlike H.world (e.invoke ctx site callee args H.world)
      (e.general (H.caches.siteAt site).shape.signature callee args H.world)) ∧
    ((∀ f, callee ≠ .function f) → ∀ relay,
      (∀ w, ∃ c, w.caches.Tallied c ∧
        e.update relay ctx site callee args w =
          e.general (w.caches.siteAt site).shape.signature callee args { w with caches := c }) ∧
      ((∀ E, LeavesTarget site (e.run E)) →
        LeavesTarget site (e.update relay ctx site callee args))) := by
  obtain ⟨c, tallied, same⟩ : EndsTallied H.world (e.invoke ctx site callee args H.world) _ :=
    invokeWith_ends_tallied hcallee hargs (hr.sane.sound.plan site)
  have laidOut : ∀ laid, (H.caches.siteAt site).shape.signature.layOut H.heap.typeName args =
      .ok laid → Run.seen (e.invoke ctx site callee args H.world) =
        Run.seen (Run.mapError CallError.runtime (e.call callee laid)
          { H.world with caches := c }) := by
    intro laid h
    rw [same, general_of_laid (w := { H.world with caches := c }) h]
  refine ⟨⟨c, tallied, same, laidOut⟩, ?_, ?_, ?_, ?_⟩
  · intro fault h
    rw [same, general_of_fault (w := { H.world with caches := c }) h]
    rfl
  · intro laid h hf hb ht
    rw [laidOut laid h, Run.mapError, call_of_not_callable hf hb ht]
    rfl
  · intro extend
    have blind := general_starts_blind extend (H.caches.siteAt site).shape.signature callee args
    have alike := blind.alike { H.world with caches := c } H.world ⟨rfl, rfl⟩
    exact .of_seen same (.of_trace (v := { H.world with caches := c }) rfl alike)
  · intro hfun relay
    refine ⟨fun w => ⟨_, ?_, update_of_plain hcallee hfun⟩, update_leaves_target hcallee hfun⟩
    exact (Caches.Tallied.count _ ctx .misses).trans (.count _ ctx .fallbacks)

/-! ## A built-in function with a keyword -/

/-- The call site passes a positional and a keyword, and the class takes both. -/
def keyworded : History :=
  let H := opening #[⟨"__init__", ["self", "x", "k"], false⟩] sampleClass
    { signature := ⟨[.plain, .named "k"]⟩ }
  H.withHeap (H.heap.addBuiltin "show").2

theorem keyworded_reachable (o : Usage) : Reachable o keyworded := by
  obtain ⟨functions, run⟩ := opening_reachable o #[⟨"__init__", ["self", "x", "k"], false⟩]
    (c := sampleClass) rfl rfl { signature := ⟨[.plain, .named "k"]⟩ }
  exact ⟨functions, run.tail (.heap (.aside rfl rfl rfl rfl))⟩

/-- A call of the class gave the call site a shortcut. -/
def keywordedWarm : World := warm keyworded ⟨1⟩ [.int 1, .int 2]

/-- The built-in function gets the name of its keyword. -/
theorem sample_calls_builtin :
    (keywordedWarm.caches.siteAt ⟨0⟩).target = some (.shortcut ⟨0⟩) ∧
      Run.seen ((constant .none).invoke .shared ⟨0⟩ (.builtin (.added 0)) [.int 1, .int 2]
          keywordedWarm) =
        (.ok .none, keywordedWarm.heap,
          keywordedWarm.trace.push (.builtin 0 ⟨[.int 1], [("k", .int 2)]⟩)) ∧
      StartsAlike keywordedWarm
        ((constant .none).invoke .shared ⟨0⟩ (.builtin (.added 0)) [.int 1, .int 2] keywordedWarm)
        ((constant .none).general ⟨[.plain, .named "k"]⟩ (.builtin (.added 0)) [.int 1, .int 2]
          keywordedWarm) := by
  obtain ⟨H, hr, hH⟩ : ∃ H, Reachable (fun _ _ => True) H ∧ H.world = keywordedWarm :=
    warm_reachable (keyworded_reachable _) (by decide) (by decide) ⟨1⟩ [.int 1, .int 2]
  have site : (keywordedWarm.caches.siteAt ⟨0⟩).target = some (.shortcut ⟨0⟩) ∧
      (keywordedWarm.caches.siteAt ⟨0⟩).shape.signature = ⟨[.plain, .named "k"]⟩ := by
    decide +kernel
  have signature : (H.caches.siteAt ⟨0⟩).shape.signature = ⟨[.plain, .named "k"]⟩ := by
    rw [← site.2, ← hH]
  have hargs : [Value.int 1, .int 2].length = (H.caches.siteAt ⟨0⟩).shape.signature.arity := by
    rw [signature]
    rfl
  obtain ⟨⟨c, -, -, laidOut⟩, -, -, alike, -⟩ := invoke_calls_callee (constant .none) .shared
    (.builtin (.added 0)) [.int 1, .int 2] hr (by simp) hargs
  rw [signature, hH] at laidOut alike
  refine ⟨site.1, laidOut ⟨[.int 1], [("k", .int 2)]⟩ rfl, ?_⟩
  exact alike fun _ => Run.extends_closed.pure Value.none

end Engine

end InlineCache
