import InlineCache.Proofs.Uncached

/-! # While nothing but caches changes

Before a call through a call site enters a body, all that it changes is what is cached. Then it goes
on as something that can be told without the call site: here, as the general protocol. -/

namespace InlineCache

namespace History

variable {o : Usage} {c₀ : Caches} {B : Prop} {H H' K L : History} {ε α : Type}

/-- The history goes on, and nothing but caches changes. -/
structure Unseen (o : Usage) (H K : History) : Prop where
  run : Reaches o H K
  heap : K.heap = H.heap
  trace : K.world.trace = H.world.trace

theorem Unseen.refl (o : Usage) (H : History) : Unseen o H H := ⟨.refl, rfl, rfl⟩

theorem Unseen.trans (a : Unseen o H K) (b : Unseen o K L) : Unseen o H L :=
  ⟨a.run.trans b.run, b.heap.trans a.heap, b.trace.trans a.trace⟩

theorem unseen_held (o : Usage) (H : History) (held : Held) :
    Unseen o H (H.withCaches { H.caches with held }) :=
  ⟨.single (.held held), rfl, rfl⟩

theorem unseen_hold (o : Usage) (H : History) (k : ShortcutRef) :
    Unseen o H (H.withCaches (H.caches.hold k)) :=
  unseen_held o H { H.caches.held with shortcuts := k :: H.caches.held.shortcuts }

theorem unseen_count (o : Usage) (H : History) (ctx : SpecializerRef) (n : Counter) :
    Unseen o H (H.withCaches (H.caches.count ctx n)) :=
  ⟨.single (.count ctx n), rfl, rfl⟩

theorem Alike.after (alike : Alike o c₀ H H') (run : Reaches o H K) (heap : K.heap = H.heap)
    (trace : K.world.trace = H.world.trace) : Alike o c₀ K H' :=
  ⟨alike.left.trans run, alike.right, heap.trans alike.heap, trace.trans alike.trace⟩

theorem Agree.of_seen {r₁ r₂ r₃ : EStateM.Result (Stop ε) World α}
    (same : Run.seen r₁ = Run.seen r₂) (a : Agree r₂ r₃) : Agree r₁ r₃ := by
  have heap : (Run.world r₁).heap = (Run.world r₂).heap := congrArg (·.2.1) same
  intro fits
  rw [heap] at fits
  exact same.trans (a fits)

theorem seen_always {x : Run ε α} {f : World → World}
    (hf : ∀ w, (f w).heap = w.heap ∧ (f w).trace = w.trace) (w : World) :
    Run.seen (Run.always x f w) = Run.seen (x w) := by
  unfold Run.always
  cases x w <;> simp [hf]

def EndsAs (o : Usage) (H : History) (r : EStateM.Result (Stop ε) World α) (x : Run ε α) : Prop :=
  ∃ K, Unseen o H K ∧ Run.seen r = Run.seen (x K.world)

section

variable {r : EStateM.Result (Stop ε) World α} {x y : Run ε α}

theorem endsAs_of_eq (h : r = x H.world) : EndsAs o H r x := ⟨H, .refl o H, by rw [h]⟩

theorem EndsAs.after (unseen : Unseen o H K) (ends : EndsAs o K r x) : EndsAs o H r x := by
  obtain ⟨L, unseen', same⟩ := ends
  exact ⟨L, unseen.trans unseen', same⟩

theorem EndsAs.always {f : World → World} {w : World}
    (hf : ∀ w, (f w).heap = w.heap ∧ (f w).trace = w.trace) (ends : EndsAs o H (y w) x) :
    EndsAs o H (Run.always y f w) x := by
  obtain ⟨K, unseen, same⟩ := ends
  exact ⟨K, unseen, (seen_always hf w).trans same⟩

theorem EndsAs.agree (ends : EndsAs o H r x) (steady : Steady o c₀ B x) (b : B)
    (alike : Alike o c₀ H H') : Agree r (x H'.world) := by
  obtain ⟨K, unseen, same⟩ := ends
  have alike' := alike.after unseen.run unseen.heap unseen.trace
  exact .of_seen same (steady.agrees b K H' alike')

end

end History

namespace Engine

open History

variable {o : Usage} {e : Engine} {relay : CallRelay} {H : History} {ctx : SpecializerRef}
  {site : CallSiteRef} {callee : Value} {t : TypeRef} {args : List Value} {w : World}

/-! ## The general protocol -/

theorem fallback_ends (H : History) (s : Signature) :
    EndsAs o H (e.fallback ctx s callee args H.world) (e.general s callee args) :=
  ⟨_, unseen_count o H ctx .fallbacks, rfl⟩

theorem callPlanned_general {f : FunctionRef} {plan : Option (List Nat)} {s : Signature}
    (hplan : plan = Plan.make? (w.heap.functionAt f) s) (hargs : args.length = s.arity) :
    Run.mapError .runtime (e.callPlanned f plan s args) w = e.general s (.function f) args w :=
  mapError_congr (callPlanned_eq hplan hargs) _

theorem tryShortcut_of_no_match {k : ShortcutRef}
    (hmatch : matches? w (w.caches.shortcutAt k) callee args.length = none) :
    e.tryShortcut relay ctx k callee args w = .ok none w := by
  unfold tryShortcut
  rw [get_bind, hmatch]
  rfl

section

variable (hcallee : ∀ t, callee ≠ .type t)
  (hargs : args.length = (H.caches.siteAt site).shape.signature.arity)

include hcallee in
theorem tryShortcut_of_not_type (k : ShortcutRef) (w : World) :
    e.tryShortcut relay ctx k callee args w = .ok none w := by
  apply tryShortcut_of_no_match
  cases callee with
  | type t => exact absurd rfl (hcallee t)
  | _ => rfl

include hcallee hargs

theorem update_ends_of_not_type :
    EndsAs o H (e.update relay ctx site callee args H.world)
      (e.general (H.caches.siteAt site).shape.signature callee args) := by
  unfold update
  rw [count_bind, caches_bind]
  refine .after (unseen_count o H ctx .misses) ?_
  dsimp only
  split
  · rename_i t
    exact absurd rfl (hcallee t)
  · rename_i f
    rw [heap_bind]
    refine .always (fun _ => ⟨rfl, rfl⟩) ?_
    exact endsAs_of_eq (callPlanned_general rfl hargs)
  · exact fallback_ends _ _

theorem invokeWith_ends_of_not_type (hr : Reachable o H) :
    EndsAs o H (e.invokeWith relay ctx site callee args H.world)
      (e.general (H.caches.siteAt site).shape.signature callee args) := by
  rw [invokeWith_eq e relay ctx callee hargs]
  cases htarget : (H.caches.siteAt site).target with
  | none => exact update_ends_of_not_type hcallee hargs
  | some target =>
    cases target with
    | shortcut k =>
      dsimp only
      rw [holding_apply]
      refine .after (unseen_hold o H k) (.always (fun _ => ⟨rfl, rfl⟩) ?_)
      split
      · unfold executeShortcut
        rw [Run.bind_apply, tryShortcut_of_not_type hcallee]
        exact update_ends_of_not_type hcallee hargs
      · exact fallback_ends _ _
    | function f plan =>
      dsimp only
      split
      · rename_i heq
        subst heq
        exact endsAs_of_eq (callPlanned_general (hr.sane.sound.plan site f plan htarget) hargs)
      · exact update_ends_of_not_type hcallee hargs

end

theorem callRelay_ends (hr : Reachable o H) {r : RelayRef} {f : FunctionRef} {s : Signature}
    (calls : H.caches.RelaysTo r f s.withReceiver) (v : Value) (hargs : args.length = s.arity) :
    EndsAs o H (e.callRelay ctx r v args H.world) (e.relayed f s v args) := by
  unfold callRelay relayed
  cases e.depth with
  | zero => exact endsAs_of_eq rfl
  | succ depth =>
    rw [if_neg (Nat.succ_ne_zero depth)]
    unfold relayWithin
    rw [relaySite_bind, caches_bind]
    have unseen : Unseen o H (H.withCaches (H.caches.relaySite r).2) :=
      ⟨.single (.relaySite r), rfl, rfl⟩
    have calls' := calls.mono (Caches.relaySite_grows H.caches r)
    have hcallable : ((H.withCaches (H.caches.relaySite r).2).world.caches.relayAt r).callable =
      .function f := calls'.callable
    rw [hcallable]
    have hshape : ((H.withCaches (H.caches.relaySite r).2).caches.siteAt
        (H.caches.relaySite r).1).shape = { signature := s.withReceiver } :=
      (relaySite_spec hr.sane.sound r).2.trans calls.shape
    have hargs' : (v :: args).length = ((H.withCaches (H.caches.relaySite r).2).caches.siteAt
        (H.caches.relaySite r).1).shape.signature.arity := by
      rw [hshape]
      exact congrArg (· + 1) hargs
    have ends : EndsAs o _ (e.invokeWith (e.relayWithin ctx depth) ctx _ (.function f) _ _) _ :=
      invokeWith_ends_of_not_type (by simp) hargs' (hr.trans unseen.run)
    rw [hshape] at ends
    exact .after unseen ends

end Engine

end InlineCache
