import InlineCache.Proofs.Entries
import InlineCache.Proofs.FastPath
import InlineCache.Proofs.Service

/-! # Which objects are initialized

The user's `__new__` may give back anything. A shortcut initializes what has the layout of the
class; the general protocol initializes instances of the class. -/

namespace InlineCache.Engine

open History

variable {o : Usage} {e : Engine} {H : History} {ctx : SpecializerRef} {site : CallSiteRef}
  {t : TypeRef} {f g : FunctionRef} {s : Signature} {args : List Value} {laid : CallArgs}
  {v : Value} {w w₁ : World} {slots : List Value} {d : Nat} {ε α : Type}

theorem callFunction_enters (extend : e.Extends)
    (hbind : (w.heap.functionAt f).bind laid w.heap.boxes = .ok slots) :
    EntersNext w (e.callFunction f laid w) (.function f slots) := by
  rw [callFunction_apply, hbind]
  dsimp only
  split
  · exact extend.enters _ { w with heap := w.heap.addBox.2 }
  · exact extend.enters _ w

/-! ## The general protocol -/

theorem eq_object_of_isSubtype {h : Heap} (hh : h.Hierarchy)
    (sub : h.isSubtype .object t = true) : t = .object := by
  have hle := hh.line_le .object t hh.root (List.contains_iff_mem.mp sub)
  obtain ⟨n⟩ := t
  obtain rfl : n = 0 := Nat.le_zero.mp hle
  rfl

theorem exists_object_of_instance {h : Heap} (hh : h.Hierarchy) (hinst : h.isInstance v t = true)
    (hne : h.classOf v ≠ t) : ∃ i, v = .object i ∧ i.index < h.objects.size := by
  cases v with
  | object i =>
    refine ⟨i, rfl, ?_⟩
    by_contra hnot
    have hroot : (h.objectAt i).type = .object := by
      unfold Heap.objectAt
      rw [Array.getD_eq_getD_getElem?, Array.getElem?_eq_none (Nat.not_lt.mp hnot)]
      rfl
    have sub : h.isSubtype (h.objectAt i).type t = true := hinst
    rw [hroot] at sub
    exact hne (hroot.trans (eq_object_of_isSubtype hh sub).symm)
  | _ =>
    have : t = .object := by simpa [Heap.isInstance] using hinst
    exact absurd this.symm hne

theorem callInit_avoids_of_ne (extend : e.Extends) {i : InstanceRef} (target : Target w f slots i)
    (misses : Misses w f slots laid) {init : Value} (hne : init ≠ .function f) (owner : TypeRef) :
    Avoids (.function f slots) (.object i) w
      (callInit (e.callWithin d) owner init (.object i) laid w) := by
  have owned := target.misses_receiver (v := .type owner) (by simp)
  cases init with
  | function f' =>
    change Avoids _ _ w (e.callWithin d (.function f') (laid.withReceiver (.object i)) w)
    rw [callWithin_function]
    exact callFunction_avoids extend fun h => absurd (h ▸ rfl) hne
  | builtin b =>
    change Avoids _ _ w (e.callWithin d (.builtin b) (laid.withReceiver (.object i)) w)
    rw [callWithin_builtin]
    exact callBuiltin_avoids extend target.has b _
  | classMethod box inner => exact callWithin_avoids extend d target _ (owned _)
  | _ => exact callWithin_avoids extend d target _ misses

theorem Avoids.not_entersNext_bind {E : Entry} {x : Run ε Value} {k : Value → Run ε Value}
    (hx : Avoids E v w (x w)) (still : ∀ a w', (Run.world (k a w')).trace = w'.trace) :
    ¬ EntersNext w ((x >>= k) w) E := by
  have htrace : (Run.world ((x >>= k) w)).trace = (Run.world (x w)).trace := by
    rw [Run.bind_apply]
    cases x w with
    | ok a w' => exact still a w'
    | error st w' => rfl
  rw [entersNext_congr htrace]
  exact hx.not_entersNext

theorem trace_accept (v x : Value) (w : World) : (Run.world (accept v x w)).trace = w.trace := by
  cases x <;> rfl

/-- An instance whose own class does not resolve the `__init__` of the class called is no plain
data, and no other `__init__` leads to that one with these slots. -/
theorem initObject_skips (extend : e.Extends) (hh : w.heap.Hierarchy)
    (hinit : w.heap.lookup t Slot.init.attr = some (.function f))
    (hbind : (w.heap.functionAt f).bind (laid.withReceiver v) w.heap.boxes = .ok slots)
    (hinst : w.heap.isInstance v t = true)
    (hne : w.heap.lookup (w.heap.classOf v) Slot.init.attr ≠ some (.function f)) :
    ¬ EntersNext w (initObject (e.callWithin d) t v laid w) (.function f slots) := by
  have hclass : w.heap.classOf v ≠ t := fun h => hne (h ▸ hinit)
  obtain ⟨i, rfl, hi⟩ := exists_object_of_instance hh hinst hclass
  have target : Target w f slots i := ⟨hi, laid, _, hbind⟩
  -- With the receiver there is one argument more.
  have misses : Misses w f slots laid := by
    intro box hbind'
    have hsize := FunctionRecord.size_of_bind hbind' hbind
    rw [CallArgs.size_withReceiver] at hsize
    omega
  rw [initObject_of_instance hinst]
  cases hfound : w.heap.lookup (w.heap.classOf (.object i)) Slot.init.attr with
  | none => exact not_entersNext rfl
  | some init =>
    have other : init ≠ .function f := fun h => hne (h ▸ hfound)
    have avoids := callInit_avoids_of_ne (d := d) extend target misses other
      (w.heap.classOf (.object i))
    exact avoids.not_entersNext_bind (trace_accept _)

theorem initObject_enters_iff (extend : e.Extends) (hh : w.heap.Hierarchy)
    (hinit : w.heap.lookup t Slot.init.attr = some (.function f))
    (hbind : (w.heap.functionAt f).bind (laid.withReceiver v) w.heap.boxes = .ok slots) :
    EntersNext w (initObject (e.callWithin d) t v laid w) (.function f slots) ↔
      w.heap.isInstance v t = true ∧
        w.heap.lookup (w.heap.classOf v) Slot.init.attr = some (.function f) := by
  constructor
  · intro enters
    cases hinst : w.heap.isInstance v t with
    | false =>
      rw [initObject_of_not_instance hinst] at enters
      exact absurd enters (not_entersNext rfl)
    | true =>
      by_contra hne
      exact initObject_skips extend hh hinit hbind hinst (fun h => hne ⟨rfl, h⟩) enters
  · rintro ⟨hinst, hfound⟩
    rw [initObject_of_instance hinst, hfound]
    change EntersNext w ((e.callWithin d (.function f) (laid.withReceiver v) >>= accept v) w) _
    rw [callWithin_function]
    exact (callFunction_enters extend hbind).bind (accept_extends v)

theorem general_of_made {box : Nat} (hdepth : e.depth = d + 1)
    (hmeta : ((w.heap.typeAt t).metaclass.bind fun m => w.heap.lookup m Slot.call.attr) = none)
    (hnew : w.heap.lookup t Slot.new.attr = some (.staticMethod box (.function g)))
    (hlaid : s.layOut w.heap.typeName args = .ok laid)
    (hmade : e.callFunction g (laid.withReceiver (.type t)) w = .ok v w₁) :
    e.general s (.type t) args w =
      Run.mapError .runtime (initObject (e.callWithin d) t v laid) w₁ := by
  have hcall : e.callWritten s (.type t) args w = initObject (e.callWithin d) t v laid w₁ := by
    unfold callWritten call
    rw [heap_bind, hlaid, hdepth]
    change instantiate (e.callWithin d) t laid w = _
    unfold instantiate
    rw [heap_bind, hmeta]
    dsimp only
    rw [hnew]
    change (e.callWithin d (.function g) (laid.withReceiver (.type t)) >>= _) w = _
    rw [callWithin_function, Run.bind_apply, hmade]
  exact mapError_congr hcall _

/-! ## Shortcuts -/

theorem callRelay_enters (extend : e.Extends) (hr : Reachable o H) {i : RelayRef}
    (calls : H.caches.RelaysTo i f s.withReceiver) (hargs : args.length = s.arity)
    (hdepth : e.depth ≠ 0) {n : Value → String} (hlaid : s.layOut n args = .ok laid)
    (hbind : (H.heap.functionAt f).bind (laid.withReceiver v) H.heap.boxes = .ok slots) :
    EntersNext H.world (e.callRelay ctx i v args H.world) (.function f slots) := by
  obtain ⟨K, unseen, same⟩ := callRelay_ends (e := e) hr calls v hargs
  rw [entersNext_congr (congrArg (·.2.2) same), relayed_eq hdepth hlaid, entersNext_mapError]
  rw [← unseen.heap] at hbind
  unfold EntersNext
  rw [← unseen.trace]
  exact callFunction_enters extend hbind

/-- A shortcut enters the `__init__` of the class for what has its layout, and for nothing else. -/
theorem runShortcut_enters_iff {c₀ : Caches} {B : Prop} (bodies : Bodies o c₀ B e)
    (extend : e.Extends) (hfrom : From o c₀ H) {k : Shortcut}
    (initializes : H.caches.Initializes s.withReceiver k.initializer (some f))
    (hargs : args.length = s.arity) (hdepth : e.depth ≠ 0) {n : Value → String}
    (hlaid : s.layOut n args = .ok laid)
    (hmade : e.runAllocation (e.callRelay ctx) k.allocate t args H.world = .ok v w)
    (hbind : (w.heap.functionAt f).bind (laid.withReceiver v) w.heap.boxes = .ok slots)
    (fits : (Run.world (e.runShortcut (e.callRelay ctx) k t args H.world)).heap.Fits) :
    EntersNext w (e.runShortcut (e.callRelay ctx) k t args H.world) (.function f slots) ↔
      w.heap.nativeLayout v = (w.heap.layoutOf t).id := by
  have hrelay := relayWithin_moves bodies ctx e.depth
  have hlands := runAllocation_moves bodies hrelay k.allocate t args H hfrom
  have before := fits_of_bind hfrom.reachable hlands (fun v' K run _ =>
    runInitializer_moves hrelay k.initializer t v' args K (hfrom.trans run)) fits
  have hrun : e.runShortcut (e.callRelay ctx) k t args H.world =
      runInitializer (e.callRelay ctx) k.initializer t v args w := by
    unfold runShortcut
    rw [Run.bind_apply, hmade]
  rw [hrun]
  obtain ⟨K, run, hK⟩ := hlands
  change K.world = Run.world (e.runAllocation (e.callRelay ctx) k.allocate t args H.world) at hK
  change (Run.world (e.runAllocation (e.callRelay ctx) k.allocate t args H.world)).heap.Fits
    at before
  rw [hmade] at hK before
  obtain rfl : K.world = w := hK
  have hr := hfrom.reachable.trans run
  generalize k.initializer = i at initializes ⊢
  cases initializes with
  | @some relay _ calls =>
    unfold runInitializer
    dsimp only
    rw [heap_bind]
    by_cases hlayout : K.world.heap.nativeLayout v = (K.world.heap.layoutOf t).id
    -- A shortcut also looks whether it got `None`, but no class has the layout of `None`.
    · have hv : v ≠ .none := by
        rintro rfl
        exact ofData_ne hr.sane.hierarchy before t (v := .none) (by simp) hlayout
      rw [if_pos ⟨hv, hlayout⟩]
      have enters : EntersNext K.world (e.callRelay ctx relay v args K.world)
          (.function f slots) :=
        callRelay_enters extend hr (calls.mono (hfrom.reachable.grows run).caches) hargs hdepth
          hlaid hbind
      exact iff_of_true (enters.bind fun _ => Run.extends_closed.pure v) hlayout
    · rw [if_neg fun h => hlayout h.2]
      exact iff_of_false (not_entersNext rfl) hlayout

theorem makeObject_of_made {m : Maker} (hmaker : m = .user g) (hdepth : e.depth ≠ 0)
    (hlaid : s.layOut w.heap.typeName args = .ok laid)
    (hmade : e.callFunction g (laid.withReceiver (.type t)) w = .ok v w₁) :
    e.makeObject s m t args w = .ok v w₁ := by
  rw [hmaker]
  change e.relayed g s (.type t) args w = _
  rw [relayed_eq hdepth hlaid, Run.mapError, hmade]

/-! ## Main theorem -/

/-- Run from `w`, what makes the object gives `v` and leaves the attributes of types alone. The
function then gets `v` and the arguments in these slots. -/
structure HandsOver (x : Run ε Value) (w : World) (f : FunctionRef) (laid : CallArgs) (v : Value)
    (w' : World) (slots : List Value) : Prop where
  made : x w = .ok v w'
  attrs : ∀ u, w.heap.Has u → (w'.heap.typeAt u).attrs = (w.heap.typeAt u).attrs
  binds : (w'.heap.functionAt f).bind (laid.withReceiver v) w'.heap.boxes = .ok slots

/-- The general protocol runs the user's `__new__` and then, for instances of the class whose own
class resolves it, the `__init__` of the class. -/
theorem general_enters_iff {c₀ : Caches} {B : Prop} (bodies : Bodies o c₀ B e) (extend : e.Extends)
    (hfrom : From o c₀ H) (hdepth : e.depth ≠ 0) {box : Nat}
    (hmeta : ((H.heap.typeAt t).metaclass.bind fun m => H.heap.lookup m Slot.call.attr) = none)
    (hnew : H.heap.slot t .new = .user (.staticMethod box (.function g)))
    (hinit : H.heap.slot t .init = .user (.function f))
    (hlaid : s.layOut H.heap.typeName args = .ok laid)
    (hands : HandsOver (e.callFunction g (laid.withReceiver (.type t))) H.world f laid v w slots) :
    EntersNext w (e.general s (.type t) args H.world) (.function f slots) ↔
      w.heap.isInstance v t = true ∧
        w.heap.lookup (w.heap.classOf v) Slot.init.attr = some (.function f) := by
  obtain ⟨K, run, hK⟩ := (callFunction_closed (steady_closed o c₀ B) bodies.enter g
    (laid.withReceiver (.type t))).moves H hfrom
  rw [hands.made] at hK
  obtain rfl : K.world = w := hK
  have hr := hfrom.reachable
  have ht : H.heap.Has t := Heap.has_of_slot (s := .init) (by simp [hinit])
  have hfound := lookup_of_attrs (hr.grows run).heap hr.sane.hierarchy ht hands.attrs Slot.init.attr
  rw [Heap.lookup_of_slot_user hinit] at hfound
  obtain ⟨d, hd⟩ := Nat.exists_eq_succ_of_ne_zero hdepth
  rw [general_of_made hd hmeta (Heap.lookup_of_slot_user hnew) hlaid hands.made,
    entersNext_mapError]
  exact initObject_enters_iff extend (hr.trans run).sane.hierarchy hfound hands.binds

/-- Which objects are initialized. A class has a user's `__init__` and a user's static `__new__`.
If a shortcut serves a call of it, that shortcut runs both of them, and what `__new__` gives is
initialized exactly when it has the layout of the class. Any other call goes as the general protocol
says. There, wherever caches alone have changed, what `__new__` gives is initialized exactly when it
is an instance of the class whose own class resolves that `__init__`. -/
theorem init_entered_iff (hr : Reachable o H) (has : H.caches.HasSpecializer ctx)
    (hsite : H.caches.HasSite site) (use : o site ctx) (bodies : Bodies o H.caches False e)
    (extend : e.Extends) (hdepth : e.depth ≠ 0) {box : Nat}
    (hnew : H.heap.slot t .new = .user (.staticMethod box (.function g)))
    (hinit : H.heap.slot t .init = .user (.function f))
    (hs : (H.caches.siteAt site).shape.signature = s) (hargs : args.length = s.arity)
    (hlaid : s.layOut H.heap.typeName args = .ok laid)
    (fits : (Run.world (e.invoke ctx site (.type t) args H.world)).heap.Fits) :
    (H.world.CutsShort ctx site t args.length → ∃ K k, Unseen o H K ∧
      K.caches.Realizes s k ⟨.user g, some f⟩ ∧
      Run.seen (e.invoke ctx site (.type t) args H.world) =
        Run.seen (e.runShortcut (e.callRelay ctx) k t args K.world) ∧
      ∀ v w slots, HandsOver (e.runAllocation (e.callRelay ctx) k.allocate t args) K.world f laid v
          w slots →
        (EntersNext w (e.invoke ctx site (.type t) args H.world) (.function f slots) ↔
          w.heap.nativeLayout v = (w.heap.layoutOf t).id)) ∧
    (¬ H.world.CutsShort ctx site t args.length →
      EndsAs o H (e.invoke ctx site (.type t) args H.world) (e.general s (.type t) args)) ∧
    (((H.heap.typeAt t).metaclass.bind fun m => H.heap.lookup m Slot.call.attr) = none →
      ∀ K, Unseen o H K → ∀ v w slots,
        HandsOver (e.callFunction g (laid.withReceiver (.type t))) K.world f laid v w slots →
        (EntersNext w (e.general s (.type t) args K.world) (.function f slots) ↔
          w.heap.isInstance v t = true ∧
            w.heap.lookup (w.heap.classOf v) Slot.init.attr = some (.function f))) := by
  subst hs
  have start : From o H.caches H := ⟨hr, .refl _⟩
  have before := (invoke_lands bodies start has hsite use (.type t) args).fits hr fits
  refine ⟨?_, ?_, ?_⟩
  · intro cut
    obtain ⟨_, r, -, hrecipe, K, k, unseen, realizes, same⟩ :=
      invoke_cuts (e := e) hr before hargs has hsite use cut
    -- Whatever settings the shortcut was granted under, the recipe says what the slots hold.
    have hr' : r = ⟨.user g, some f⟩ := by
      obtain ⟨-, -, hf, hg⟩ := Heap.recipe_eq_ok_iff.mp hrecipe
      have hf := Except.ok.inj (hf.symm.trans (Heap.initializer?_eq_some_iff.mpr hinit))
      have hg := Except.ok.inj (hg.symm.trans (Heap.maker?_eq_user_iff.mpr ⟨box, hnew⟩))
      cases r
      simp_all
    subst hr'
    refine ⟨K, k, unseen, realizes, same, ?_⟩
    intro v w slots hands
    have heap := congrArg (·.2.1) same
    dsimp only [Run.seen] at heap
    rw [heap] at fits
    rw [entersNext_congr (congrArg (·.2.2) same)]
    exact runShortcut_enters_iff bodies extend (start.trans unseen.run) realizes.initializer hargs
      hdepth hlaid hands.made hands.binds fits
  · exact invoke_ends hr before hargs has
  · intro hmeta K unseen v w slots hands
    rw [← unseen.heap] at hmeta hnew hinit hlaid
    exact general_enters_iff bodies extend (start.trans unseen.run) hdepth hmeta hnew hinit hlaid
      hands

/-! ## An object of another class -/

/-- Classes A and B are unrelated and have one layout. There is one object, of B. Function 0 is the
`__new__` of A and function 1 its `__init__`. -/
def foreign : History :=
  let H := opening #[⟨"__new__", ["cls"], false⟩, ⟨"__init__", ["self"], false⟩]
    { name := "A"
      attrs := [("__new__", .staticMethod 0 (.function ⟨0⟩)), ("__init__", .function ⟨1⟩)] }
    { signature := .plain 0 }
  let H := H.withHeap (H.heap.tryDefine { name := "B" })
  H.withHeap (H.heap.addObject ⟨2⟩ .object).2

theorem foreign_reachable (o : Usage) : Reachable o foreign := by
  obtain ⟨functions, run⟩ := opening_reachable o
    #[⟨"__new__", ["cls"], false⟩, ⟨"__init__", ["self"], false⟩]
    (c := { name := "A"
            attrs := [("__new__", .staticMethod 0 (.function ⟨0⟩)), ("__init__", .function ⟨1⟩)] })
    rfl rfl { signature := .plain 0 }
  have defined := run.tail (.heap (.tryDefine (c := { name := "B" }) (by simp) (by simp)))
  exact ⟨functions, defined.tail (.heap (.aside rfl rfl rfl rfl))⟩

/-- `__new__` gives the object of B. -/
def fostering : Engine where
  run E := pure (match E with | .function ⟨0⟩ _ => .object ⟨0⟩ | _ => .none)
  depth := 1

theorem fostering_extends : fostering.Extends := fun _ => Run.extends_closed.pure _

theorem fostering_bodies {o : Usage} {c : Caches} {B : Prop} : Bodies o c B fostering :=
  fun _ => steady_pure _

/-- What there is once `__new__` has run. -/
def foreignMade : World :=
  { foreign.world with trace := foreign.world.trace.push (.function ⟨0⟩ [.type ⟨1⟩]) }

theorem foreign_hands :
    HandsOver (fostering.callFunction ⟨0⟩ (CallArgs.withReceiver {} (.type ⟨1⟩))) foreign.world
      ⟨1⟩ {} (.object ⟨0⟩) foreignMade [.object ⟨0⟩] := by
  have hbind : (foreign.heap.functionAt ⟨0⟩).bind (CallArgs.withReceiver {} (.type ⟨1⟩))
      foreign.heap.boxes = .ok [.type ⟨1⟩] := by
    decide +kernel
  have fixed : (foreign.heap.functionAt ⟨0⟩).variadic = false := by decide +kernel
  refine ⟨?_, fun _ _ => rfl, by decide +kernel⟩
  rw [callFunction_apply, hbind, fixed]
  rfl

theorem foreign_hands_of_unseen {K : History} (unseen : Unseen (fun _ _ => True) foreign K)
    {k : Shortcut} {r : Recipe} (realizes : K.caches.Realizes (.plain 0) k r)
    (hmaker : r.maker = .user ⟨0⟩) :
    ∃ w, w.trace = foreignMade.trace ∧ w.heap = foreignMade.heap ∧
      HandsOver (fostering.runAllocation (fostering.callRelay .shared) k.allocate ⟨1⟩ []) K.world
        ⟨1⟩ {} (.object ⟨0⟩) w [.object ⟨0⟩] := by
  have start : From (fun _ _ => True) foreign.caches foreign := ⟨foreign_reachable _, .refl _⟩
  have alike : Alike (fun _ _ => True) foreign.caches foreign foreign := ⟨start, start, rfl, rfl⟩
  have alike := alike.after unseen.run unseen.heap unseen.trace
  have same : Agree (fostering.runAllocation (fostering.callRelay .shared) k.allocate ⟨1⟩ []
      K.world) (fostering.makeObject (.plain 0) r.maker ⟨1⟩ [] foreign.world) :=
    runAllocation_agrees fostering_bodies trivial alike realizes.maker ⟨1⟩ rfl
  rw [makeObject_of_made hmaker (by decide) rfl foreign_hands.made] at same
  obtain ⟨w, made, heap, trace⟩ := Run.eq_ok_of_seen (same (Or.inr (by decide +kernel))).symm rfl
  refine ⟨w, trace.symm, heap.symm, made, ?_, ?_⟩
  · intro u _
    rw [← heap]
    exact congrArg (fun h : Heap => (h.typeAt u).attrs) unseen.heap.symm
  · rw [← heap]
    exact foreign_hands.binds

theorem foreign_init_entered :
    EntersNext foreignMade (fostering.invoke .shared ⟨0⟩ (.type ⟨1⟩) [] foreign.world)
        (.function ⟨1⟩ [.object ⟨0⟩]) ∧
      ¬ EntersNext foreignMade (fostering.general (.plain 0) (.type ⟨1⟩) [] foreign.world)
        (.function ⟨1⟩ [.object ⟨0⟩]) := by
  have cut : foreign.world.CutsShort .shared ⟨0⟩ ⟨1⟩ 0 :=
    ⟨by decide +kernel, Or.inr ⟨⟨.user ⟨0⟩, some ⟨1⟩⟩, by decide +kernel⟩⟩
  have has : foreign.caches.HasSpecializer .shared ∧ foreign.caches.HasSite ⟨0⟩ := by
    decide +kernel
  have hnew : foreign.heap.slot ⟨1⟩ .new = .user (.staticMethod 0 (.function ⟨0⟩)) := by
    decide +kernel
  have hinit : foreign.heap.slot ⟨1⟩ .init = .user (.function ⟨1⟩) := by decide +kernel
  have fits : (Run.world
      (fostering.invoke .shared ⟨0⟩ (.type ⟨1⟩) [] foreign.world)).heap.Fits := by
    decide +kernel
  obtain ⟨short, -, general⟩ := init_entered_iff (o := fun _ _ => True) (foreign_reachable _) has.1
    has.2 trivial fostering_bodies fostering_extends (by decide) hnew hinit rfl rfl rfl fits
  constructor
  · obtain ⟨K, k, unseen, realizes, -, enters⟩ := short cut
    obtain ⟨w, trace, heap, hands⟩ := foreign_hands_of_unseen unseen realizes rfl
    have next := (enters _ _ _ hands).mpr (by rw [heap]; decide +kernel)
    unfold EntersNext at next ⊢
    rwa [trace] at next
  · intro enters
    have inst := ((general (by decide +kernel) _ (.refl _ _) _ _ _ foreign_hands).mp enters).1
    exact absurd inst (by decide +kernel)

theorem foreign_initialized :
    Reachable (fun _ _ => True) foreign ∧
      foreign.heap.isInstance (.object ⟨0⟩) ⟨1⟩ = false ∧
      (Run.world (fostering.invoke .shared ⟨0⟩ (.type ⟨1⟩) [] foreign.world)).trace.toList =
        [.function ⟨0⟩ [.type ⟨1⟩], .function ⟨1⟩ [.object ⟨0⟩]] ∧
      (Run.world (fostering.general (.plain 0) (.type ⟨1⟩) [] foreign.world)).trace.toList =
        [.function ⟨0⟩ [.type ⟨1⟩]] :=
  ⟨foreign_reachable _, by decide +kernel⟩

end InlineCache.Engine
