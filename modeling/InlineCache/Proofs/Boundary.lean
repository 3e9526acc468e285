import InlineCache.Proofs.Fitted
import InlineCache.Proofs.Story

/-! # Where calls fail to bind

A call site compares the number of arguments with its signature. Whatever passes there never fails
to bind further in: a shortcut is run with as many arguments as it was built for, and its relays
take one more, the receiver. -/

namespace InlineCache

/-! ## Runs that do not fail to bind -/

namespace Run

variable {α β : Type}

/-- The run ends in some other way than by a failure to bind. -/
def Binds (r : EStateM.Result (Stop CallError) World α) : Prop :=
  ∀ fault, outcome r ≠ .error (.error (.bind fault))

theorem binds_ok (a : α) (w : World) : Binds (.ok a w) := fun _ h => nomatch h

theorem binds_exhausted (w : World) :
    Binds (.error .exhausted w : EStateM.Result (Stop CallError) World α) := fun _ h => nomatch h

theorem binds_mapError (x : Run RuntimeError α) (w : World) :
    Binds (mapError CallError.runtime x w) := by
  intro fault h
  unfold mapError at h
  cases hx : x w with
  | ok a w' => simp [hx, outcome] at h
  | error s w' => cases s <;> simp [hx, outcome] at h

theorem Binds.bind {x : Run CallError α} {f : α → Run CallError β} {w : World}
    (hx : Binds (x w)) (hf : ∀ a w', x w = .ok a w' → Binds (f a w')) : Binds ((x >>= f) w) := by
  rw [bind_apply]
  cases h : x w with
  | ok a w' => exact hf a w' h
  | error s w' =>
    rw [h] at hx
    exact fun fault hs => hx fault (congrArg Except.error (by simpa [outcome] using hs))

theorem Binds.always {x : Run CallError α} {w : World} (hx : Binds (x w)) (f : World → World) :
    Binds (Run.always x f w) := by
  intro fault h
  refine hx fault ?_
  rw [← h]
  unfold Run.always
  cases x w <;> rfl

end Run

namespace Engine

open History Run

variable {o : Usage} {c₀ : Caches} {B : Prop} {e : Engine} {H : History} {ctx : SpecializerRef}
  {site : CallSiteRef} {callee : Value} {args : List Value}

theorem fallback_binds (e : Engine) (ctx : SpecializerRef) (s : Signature) (callee : Value)
    (args : List Value) (w : World) : Binds (e.fallback ctx s callee args w) :=
  binds_mapError (e.callWritten s callee args) (w.counted ctx .fallbacks)

section

variable {relay : CallRelay} (bodies : Bodies o c₀ B e)
  (hmoves : ∀ r v args, Moves o c₀ (relay r v args))
  (hrelay : ∀ H, From o c₀ H → ∀ r v args, H.caches.Takes args.length r →
    Binds (relay r v args H.world))

include hrelay

theorem runAllocation_binds (hfrom : From o c₀ H) {a : Allocation}
    (takes : ∀ r, a = .relay r → H.caches.Takes args.length r) (t : TypeRef) :
    Binds (e.runAllocation relay a t args H.world) := by
  cases a with
  | relay r => exact hrelay H hfrom r (.type t) args (takes r rfl)
  | native l =>
    unfold runAllocation
    dsimp only
    rw [heap_bind]
    cases (H.world.heap.layoutAt l).ctors with
    | nil => exact fun _ h => nomatch h
    | cons c rest => exact binds_mapError _ _

theorem runInitializer_binds (hfrom : From o c₀ H) {i : Option RelayRef}
    (takes : ∀ r, i = some r → H.caches.Takes args.length r) (t : TypeRef) (v : Value) :
    Binds (runInitializer relay i t v args H.world) := by
  cases i with
  | none => exact binds_ok _ _
  | some r =>
    unfold runInitializer
    dsimp only
    rw [heap_bind]
    split
    · exact (hrelay H hfrom r v args (takes r rfl)).bind fun _ _ _ => binds_ok _ _
    · exact binds_ok _ _

include bodies hmoves

theorem runShortcut_binds (hfrom : From o c₀ H) {k : Shortcut}
    (takes : ∀ r ∈ k.relays, H.caches.Takes args.length r) (t : TypeRef) :
    Binds (e.runShortcut relay k t args H.world) := by
  unfold runShortcut
  obtain ⟨K, run, hK⟩ := runAllocation_moves bodies hmoves k.allocate t args H hfrom
  refine (runAllocation_binds hrelay hfrom (fun r hr => ?_) t).bind fun v w' hok => ?_
  · exact takes r (Shortcut.mem_relays_iff.mpr (Or.inl hr))
  · -- The relay of the initializer is still there when the allocation is over.
    rw [hok] at hK
    obtain rfl : K.world = w' := hK
    refine runInitializer_binds hrelay (hfrom.trans run) (fun r hr => ?_) t v
    have before := takes r (Shortcut.mem_relays_iff.mpr (Or.inr hr))
    exact before.mono (hfrom.reachable.grows run).caches

theorem tryShortcut_binds (hfrom : From o c₀ H) (ctx : SpecializerRef) (k : ShortcutRef)
    (callee : Value) (args : List Value) :
    Binds (e.tryShortcut relay ctx k callee args H.world) := by
  cases hmatch : matches? H.world (H.caches.shortcutAt k) callee args.length with
  | none =>
    rw [tryShortcut_of_no_match hmatch]
    exact binds_ok _ _
  | some t =>
    obtain rfl := type_of_matches hmatch
    have hargs : args.length = (H.caches.shortcutAt k).arity.count :=
      (matches?_eq_some_iff.mp hmatch).2
    have hfrom' := hfrom.trans (.single (.count ctx .fastHits))
    have takes : ∀ r ∈ (H.caches.shortcutAt k).relays,
        (H.caches.count ctx .fastHits).Takes args.length r := by
      rw [hargs]
      exact hfrom'.reachable.fitted k
    have runs := runShortcut_binds bodies hmoves hrelay hfrom' takes t
    rw [tryShortcut_of_match hmatch, ← bind_pure_comp]
    exact runs.bind fun _ _ _ => binds_ok _ _

theorem holding_binds (hfrom : From o c₀ H) (ctx : SpecializerRef) (k : ShortcutRef)
    (callee : Value) (args : List Value) :
    Binds (Run.holding k (e.tryShortcut relay ctx k callee args) H.world) := by
  rw [holding_apply]
  have held : Step o H (H.withCaches (H.caches.hold k)) := .held _
  exact (tryShortcut_binds bodies hmoves hrelay (hfrom.trans (.single held)) ctx k callee
    args).always _

theorem update_type_binds (hfrom : From o c₀ H) (hctx : H.caches.HasSpecializer ctx)
    (hsite : H.caches.HasSite site) (use : o site ctx) (t : TypeRef) (args : List Value) :
    Binds (e.update relay ctx site (.type t) args H.world) := by
  have missed : Step o H _ := .count ctx .misses
  have has := Caches.hasSpecializer_count hctx ctx .misses
  have step : Step o _ _ := .request (H := H.withCaches (H.caches.count ctx .misses)) ctx
    (H.caches.siteAt site).shape t has
  have asked := (Relation.ReflTransGen.single missed).tail step
  have grows := (hfrom.reachable.grows asked).caches
  -- No request fails: those that might are refused for their arity.
  obtain ⟨answer, c, -, hreq, -⟩ :=
    Caches.request_counts has H.heap (H.caches.siteAt site).shape t
  have hreq : Caches.request H.world.heap ctx (H.world.caches.siteAt site).shape t
    (H.world.caches.count ctx .misses) = .ok answer c := hreq
  rw [update_type_apply, hreq]
  cases answer with
  | error reason => exact fallback_binds e ctx _ _ args _
  | ok k =>
    let g : Grant := ⟨ctx, (H.caches.siteAt site).shape, t, k⟩
    let L : History := { H.withCaches c with grants := g :: H.grants }
    have hL : (H.withCaches (H.caches.count ctx .misses)).afterRequest ctx
        (H.caches.siteAt site).shape t = L := afterRequest_of_ok hreq
    rw [hL] at asked grows
    have aim : Step o L _ :=
      .aim site g List.mem_cons_self (grows.shape site hsite).symm use
    have tries := holding_binds bodies hmoves hrelay (hfrom.trans (asked.tail aim)) ctx k (.type t)
      args
    refine Binds.bind tries fun v? w' _ => ?_
    cases v? with
    | some v => exact binds_ok v w'
    | none => exact fallback_binds e ctx _ _ args w'

theorem update_binds (hfrom : From o c₀ H) (hsite : H.caches.HasSite site)
    (use : Usable o H.caches site ctx callee) (args : List Value) :
    Binds (e.update relay ctx site callee args H.world) := by
  by_cases htype : ∃ t, callee = .type t
  · obtain ⟨t, rfl⟩ := htype
    obtain ⟨hctx, use⟩ := use.resolve_right fun h => h t rfl
    exact update_type_binds bodies hmoves hrelay hfrom hctx hsite use t args
  · by_cases hfun : ∃ f, callee = .function f
    · obtain ⟨f, rfl⟩ := hfun
      obtain ⟨plan, -, heq⟩ := update_of_function e relay ctx site f args H.world
      rw [heq]
      exact (binds_mapError _ _).always _
    · rw [update_of_plain (not_exists.mp htype) (not_exists.mp hfun)]
      exact binds_mapError _ _

/-- With the right number of arguments a call does not fail to bind. -/
theorem invokeWith_binds (hfrom : From o c₀ H) (hsite : H.caches.HasSite site)
    (use : Usable o H.caches site ctx callee)
    (hargs : args.length = (H.caches.siteAt site).shape.signature.arity) :
    Binds (e.invokeWith relay ctx site callee args H.world) := by
  have updates := update_binds bodies hmoves hrelay hfrom hsite use args
  rw [invokeWith_eq e relay ctx callee hargs]
  cases (H.caches.siteAt site).target with
  | none => exact updates
  | some target =>
    cases target with
    | function f plan =>
      dsimp only
      split
      · exact binds_mapError _ _
      · exact updates
    | shortcut k =>
      dsimp only
      rw [holding_apply]
      refine Binds.always ?_ _
      split
      · have held : Reaches o H _ := .single (Step.held { H.caches.held with
          shortcuts := k :: H.caches.held.shortcuts })
        have grows := (hfrom.reachable.grows held).caches
        have hfrom := hfrom.trans held
        unfold executeShortcut
        obtain ⟨K, run, hK⟩ := tryShortcut_moves bodies hmoves ctx k callee args _ hfrom
        refine (tryShortcut_binds bodies hmoves hrelay hfrom ctx k callee args).bind
          fun v? w' hok => ?_
        cases v? with
        | some v => exact binds_ok v w'
        | none =>
          have grows' := (hfrom.reachable.grows run).caches
          rw [hok] at hK
          obtain rfl : K.world = w' := hK
          exact update_binds bodies hmoves hrelay (hfrom.trans run)
            ((hsite.trans_le grows.sites).trans_le grows'.sites) ((use.mono grows).mono grows')
            args
      · exact fallback_binds e ctx _ callee args _

end

theorem relayWithin_binds (bodies : Bodies o c₀ B e) (ctx : SpecializerRef) (depth : Nat)
    (hfrom : From o c₀ H) (r : RelayRef) (v : Value) (args : List Value)
    (takes : H.caches.Takes args.length r) : Binds (e.relayWithin ctx depth r v args H.world) := by
  induction depth generalizing H r v args with
  | zero => exact binds_exhausted _
  | succ depth ih =>
    unfold relayWithin
    rw [relaySite_bind, caches_bind]
    have hspec := relaySite_spec hfrom.reachable.sane.sound r
    have hfrom := hfrom.trans (.single (Step.relaySite r))
    refine invokeWith_binds bodies (relayWithin_moves bodies ctx depth)
      (fun H hfrom r v args takes => ih hfrom r v args takes) hfrom hspec.1 ?_ ?_
    · exact Or.inr fun t => hfrom.reachable.sane.sound.callable r t
    · refine Eq.trans ?_ (congrArg (·.signature.arity) hspec.2).symm
      exact takes.arity.symm

/-! ## Main theorem -/

/-- A call through a call site gives an argument count error exactly if the number of arguments is
not that of the signature. Then nothing has happened: no body was entered, and the target, the
caches and all counters are as they were. With the right number of arguments no call fails to bind,
not in the build of a shortcut either and not at the call site of a relay, whatever the callee, the
target, the settings and the bodies are. -/
theorem bind_error_iff (hr : Reachable o H) (bodies : Bodies o H.caches False e)
    (has : H.caches.HasSpecializer ctx) (hsite : H.caches.HasSite site) (use : o site ctx)
    (callee : Value) (args : List Value) :
    ((∃ expected got w, e.invoke ctx site callee args H.world =
        .error (.error (.bind (.argumentCount expected got))) w) ↔
      args.length ≠ (H.caches.siteAt site).shape.signature.arity) ∧
    (args.length ≠ (H.caches.siteAt site).shape.signature.arity →
      e.invoke ctx site callee args H.world =
        .error (.error (.bind (.argumentCount (H.caches.siteAt site).shape.signature.arity
          args.length))) H.world) ∧
    (args.length = (H.caches.siteAt site).shape.signature.arity →
      ∀ fault w, e.invoke ctx site callee args H.world ≠ .error (.error (.bind fault)) w) := by
  have start : From o H.caches H := ⟨hr, .refl _⟩
  have wrong : args.length ≠ (H.caches.siteAt site).shape.signature.arity →
      e.invoke ctx site callee args H.world = _ := invokeWith_of_ne e _ ctx callee
  have right : args.length = (H.caches.siteAt site).shape.signature.arity →
      ∀ fault w, e.invoke ctx site callee args H.world ≠ .error (.error (.bind fault)) w := by
    intro hargs fault w heq
    have binds := invokeWith_binds bodies (relayWithin_moves bodies ctx e.depth)
      (fun H hfrom r v args takes => relayWithin_binds bodies ctx e.depth hfrom r v args takes)
      start hsite (Or.inl ⟨has, use⟩ : Usable o H.caches site ctx callee) hargs
    exact binds fault (congrArg outcome heq)
  refine ⟨⟨?_, fun hargs => ⟨_, _, _, wrong hargs⟩⟩, wrong, right⟩
  rintro ⟨expected, got, w, heq⟩ hargs
  exact right hargs _ w heq

theorem sample_binds :
    (constant .none).invoke .shared ⟨0⟩ (.type ⟨1⟩) [.none] sample.world =
      .error (.error (.bind (.argumentCount 0 1))) sample.world ∧
    ∀ fault w, (constant .none).invoke .shared ⟨0⟩ (.type ⟨1⟩) [] sample.world ≠
      .error (.error (.bind fault)) w := by
  have hr : Reachable (fun _ _ => True) sample := sample_reachable trivial
  have bodies : Bodies (fun _ _ => True) sample.caches False (constant .none) :=
    constant_bodies .none
  have has : sample.caches.HasSpecializer .shared := by decide +kernel
  have hsite : sample.caches.HasSite ⟨0⟩ := by decide +kernel
  have harity : (sample.caches.siteAt ⟨0⟩).shape.signature.arity = 0 := by decide +kernel
  have one := bind_error_iff hr bodies has hsite trivial (.type ⟨1⟩) [.none]
  have none := bind_error_iff hr bodies has hsite trivial (.type ⟨1⟩) []
  rw [harity] at one none
  exact ⟨one.2.1 (by decide), none.2.2 rfl⟩

end Engine

end InlineCache
