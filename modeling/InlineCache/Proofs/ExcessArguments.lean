import InlineCache.Proofs.Entries
import InlineCache.Proofs.FastPath
import InlineCache.Proofs.Service

/-! # Excess arguments

A call of a class hands its arguments to `__new__` and then to `__init__`. What `object` defines for
either of them takes arguments only where the class defines the other one itself. So the arguments
of a call are taken by what the class defines, and if it defines neither there is nobody to take
them. -/

namespace InlineCache

/-! ## What a class puts in a slot -/

namespace Heap

variable {h h' : Heap} {t : TypeRef} {s : Slot} {v : Value}

theorem lookup_of_value? (found : (h.slot t s).value? = some v) :
    h.lookup t s.attr = some v := by
  unfold slot at found
  split at found
  · cases found
  · rename_i x hx
    rw [hx]
    unfold SlotBinding.classify at found
    split at found <;> simp_all [SlotBinding.value?]

theorem overrides_of_value? (found : (h.slot t s).value? = some v) : h.overrides t s = true := by
  refine overrides_eq_true s fun standard => ?_
  rw [standard] at found
  cases found

theorem has_of_value? (found : (h.slot t s).value? = some v) : h.Has t := by
  refine has_of_slot (s := s) fun missing => ?_
  rw [missing] at found
  cases found

theorem slot_of_lookup (same : h'.lookup t s.attr = h.lookup t s.attr) :
    h'.slot t s = h.slot t s := by
  unfold slot
  rw [same]

end Heap

namespace Engine

open History

variable {o : Usage} {e : Engine} {H : History} {h : Heap} {t : TypeRef} {new init v : Value}
  {args : CallArgs} {w : World} {d : Nat} {ε α β : Type}

/-! ## What `object` defines -/

theorem newFault?_withReceiver (h : Heap) (t : TypeRef) (args : CallArgs) (v : Value) :
    newFault? h t (args.withReceiver v) =
      if args.size = 0 then none
      else if h.overrides t .new then some .newTakesOneArgument
      else if !h.overrides t .init then some (.takesNoArguments (h.typeAt t).name)
      else none := by
  unfold newFault?
  rw [CallArgs.size_withReceiver]
  simp

theorem initFault?_withReceiver (h : Heap) (receiver : Value) (args : CallArgs) (v : Value) :
    initFault? h receiver (args.withReceiver v) =
      if args.size = 0 then none
      else if h.overrides (h.classOf receiver) .init then some .initTakesOneArgument
      else if !h.overrides (h.classOf receiver) .new then
        some (.takesNoArguments (h.typeAt (h.classOf receiver)).name)
      else none := by
  unfold initFault?
  rw [CallArgs.size_withReceiver]
  cases receiver <;> simp [Heap.classOf]

theorem objectNew_withReceiver (e : Engine) (t : TypeRef) (args : CallArgs) (w : World) :
    e.objectNew (args.withReceiver (.type t)) w =
      match newFault? w.heap t (args.withReceiver (.type t)) with
      | some fault => .error (.error (.type fault)) w
      | none => e.allocate t w := by
  have hhead : (args.withReceiver (.type t)).positional.head? = some (.type t) := rfl
  unfold objectNew
  rw [hhead]
  dsimp only
  rw [heap_bind]
  cases newFault? w.heap t (args.withReceiver (.type t)) <;> rfl

theorem objectInit_withReceiver (receiver : Value) (args : CallArgs) (w : World) :
    objectInit (args.withReceiver receiver) w =
      match initFault? w.heap receiver (args.withReceiver receiver) with
      | some fault => .error (.error (.type fault)) w
      | none => .ok .none w := by
  have hhead : (args.withReceiver receiver).positional.head? = some receiver := rfl
  unfold objectInit
  rw [hhead]
  dsimp only
  rw [heap_bind]
  cases initFault? w.heap receiver (args.withReceiver receiver) <;> rfl

theorem newFault?_of_init (standard : h.slot t .new = .standard)
    (overriding : h.overrides t .init = true) (v : Value) :
    newFault? h t (args.withReceiver v) = none := by
  rw [newFault?_withReceiver, Heap.overrides_eq_false .new standard, overriding]
  simp

theorem initFault?_of_new (standard : h.slot (h.classOf v) .init = .standard)
    (overriding : h.overrides (h.classOf v) .new = true) :
    initFault? h v (args.withReceiver v) = none := by
  rw [initFault?_withReceiver, Heap.overrides_eq_false .init standard, overriding]
  simp

/-! ## The two steps of construction -/

theorem callNew_objectNew (e : Engine) (d : Nat) (t : TypeRef) (args : CallArgs) :
    callNew (e.callWithin d) t (.builtin .objectNew) args =
      e.objectNew (args.withReceiver (.type t)) :=
  callWithin_builtin e d .objectNew _

theorem callNew_allocates (passes : newFault? w.heap t (args.withReceiver (.type t)) = none) :
    callNew (e.callWithin d) t (.builtin .objectNew) args w = e.allocate t w := by
  rw [callNew_objectNew, objectNew_withReceiver, passes]

theorem callInit_objectInit (e : Engine) (d : Nat) (owner : TypeRef) (v : Value)
    (args : CallArgs) :
    callInit (e.callWithin d) owner (.builtin .objectInit) v args =
      objectInit (args.withReceiver v) :=
  callWithin_builtin e d .objectInit _

theorem call_type (hdepth : e.depth = d + 1)
    (hmeta : ((w.heap.typeAt t).metaclass.bind fun m => w.heap.lookup m Slot.call.attr) = none)
    (hnew : w.heap.lookup t Slot.new.attr = some new) :
    e.call (.type t) args w =
      (callNew (e.callWithin d) t new args >>= fun v => initObject (e.callWithin d) t v args) w := by
  unfold call
  rw [hdepth]
  change instantiate (e.callWithin d) t args w = _
  unfold instantiate
  rw [heap_bind, hmeta]
  dsimp only
  rw [hnew]

/-- What was made goes through this run if it is an instance of the class. The run has to give
nothing. -/
def initializedBy (x : Run RuntimeError Value) (t : TypeRef) (v : Value) :
    Run RuntimeError Value := do
  if (← Run.heap).isInstance v t then
    match ← x with
    | .none => return v
    | other => Run.fail (.initReturned ((← Run.heap).typeName other))
  else return v

theorem initializedBy_of_ok {x : Run RuntimeError Value} {w' : World}
    (hinst : w.heap.isInstance v t = true) (hx : x w = .ok .none w') :
    initializedBy x t v w = .ok v w' := by
  unfold initializedBy
  rw [heap_bind, if_pos hinst, Run.bind_apply, hx]
  rfl

theorem initObject_own_class {call : Value → CallArgs → Run RuntimeError Value}
    (own : w.heap.isInstance v t = true → w.heap.classOf v = t)
    (hinit : w.heap.lookup t Slot.init.attr = some init) :
    initObject call t v args w = initializedBy (callInit call t init v args) t v w := by
  unfold initializedBy
  rw [heap_bind]
  cases hinst : w.heap.isInstance v t with
  | false =>
    rw [initObject_of_not_instance hinst]
    rfl
  | true =>
    rw [initObject_of_instance hinst, own hinst, hinit]
    rfl

theorem initializedBy_objectInit
    (nothing : w.heap.isInstance v t = true → initFault? w.heap v (args.withReceiver v) = none) :
    initializedBy (callInit (e.callWithin d) t (.builtin .objectInit) v args) t v w = .ok v w := by
  cases hinst : w.heap.isInstance v t with
  | false =>
    unfold initializedBy
    rw [heap_bind, hinst]
    rfl
  | true =>
    refine initializedBy_of_ok hinst ?_
    rw [callInit_objectInit, objectInit_withReceiver, nothing hinst]

theorem bind_eq_of_ok {x : Run ε α} {f g : α → Run ε β}
    (same : ∀ a w', x w = .ok a w' → f a w' = g a w') : (x >>= f) w = (x >>= g) w := by
  rw [Run.bind_apply, Run.bind_apply]
  cases hx : x w with
  | ok a w' => exact same a w' hx
  | error st w' => rfl

/-! ## The class a new object is of -/

/-- What the run gives is no instance of the class unless it is of the very class. The run leaves
the attributes of types as they are. -/
def KeepsClass (x : Run RuntimeError Value) (t : TypeRef) (w : World) : Prop :=
  ∀ v w', x w = .ok v w' → (w'.heap.isInstance v t = true → w'.heap.classOf v = t) ∧
    ∀ u, w.heap.Has u → (w'.heap.typeAt u).attrs = (w.heap.typeAt u).attrs

theorem KeepsClass.congr {x y : Run RuntimeError Value} (keeps : KeepsClass x t w)
    (same : x w = y w) : KeepsClass y t w :=
  fun v w' hy => keeps v w' (same.trans hy)

theorem KeepsClass.lookup {x : Run RuntimeError Value} (keeps : KeepsClass x t H.world)
    (hr : Reachable o H) (moves : Moves o H.caches x) (ht : H.heap.Has t)
    (hx : x H.world = .ok v w) (name : String) : w.heap.lookup t name = H.heap.lookup t name := by
  obtain ⟨K, run, hK⟩ := moves H ⟨hr, .refl _⟩
  rw [hx] at hK
  obtain rfl : K.world = w := hK
  exact lookup_of_attrs (hr.grows run).heap hr.sane.hierarchy ht (keeps v _ hx).2 name

theorem callNew_moves {c₀ : Caches} {B : Prop} (bodies : Bodies o c₀ B e) (d : Nat) (t : TypeRef)
    (new : Value) (args : CallArgs) : Moves o c₀ (callNew (e.callWithin d) t new args) := by
  have steady : Steady o c₀ B (callNew (e.callWithin d) t new args) :=
    callNew_closed (P := fun x => Steady o c₀ B x)
      (callWithin_closed (steady_closed o c₀ B) bodies.enter d) t new args
  exact steady.moves

theorem allocate_plain (plain : (w.heap.layoutOf t).ctors = [.plain]) :
    e.allocate t w = .ok (.object ⟨w.heap.objects.size⟩)
      { w with heap := (w.heap.addObject t (w.heap.layoutOf t).id).2 } :=
  allocate_eq plain rfl

theorem keepsClass_of_plain (plain : (w.heap.layoutOf t).ctors = [.plain]) :
    KeepsClass (e.allocate t) t w := by
  intro v w' made
  rw [allocate_plain plain] at made
  cases made
  refine ⟨fun _ => ?_, fun u _ => rfl⟩
  simp [Heap.classOf, Heap.objectAt, Heap.addObject]

section

variable (hr : Reachable o H) (bodies : Bodies o H.caches False e) (hdepth : e.depth = d + 1)
  (hmeta : ((H.heap.typeAt t).metaclass.bind fun m => H.heap.lookup m Slot.call.attr) = none)

include hr bodies hdepth hmeta

/-- What `__new__` of the class makes goes through `__init__` of the class. -/
theorem call_type_of_keeps (hnew : H.heap.lookup t Slot.new.attr = some new)
    (hinit : H.heap.lookup t Slot.init.attr = some init) (ht : H.heap.Has t)
    (keeps : KeepsClass (callNew (e.callWithin d) t new args) t H.world) :
    e.call (.type t) args H.world =
      (callNew (e.callWithin d) t new args >>= fun v =>
        initializedBy (callInit (e.callWithin d) t init v args) t v) H.world := by
  rw [call_type (w := H.world) hdepth hmeta hnew]
  apply bind_eq_of_ok
  intro v w made
  have found := keeps.lookup hr (callNew_moves bodies d t new args) ht made Slot.init.attr
  exact initObject_own_class (keeps v w made).1 (found.trans hinit)

theorem call_type_allocates (hnew : H.heap.slot t .new = .standard)
    (hinit : H.heap.lookup t Slot.init.attr = some init) (ht : H.heap.Has t)
    (passes : newFault? H.heap t (args.withReceiver (.type t)) = none)
    (keeps : KeepsClass (e.allocate t) t H.world) :
    e.call (.type t) args H.world =
      (e.allocate t >>= fun v =>
        initializedBy (callInit (e.callWithin d) t init v args) t v) H.world := by
  have made := callNew_allocates (e := e) (d := d) passes
  rw [call_type_of_keeps hr bodies hdepth hmeta (Heap.lookup_new_of_standard hnew) hinit ht
    (keeps.congr made.symm), Run.bind_apply, Run.bind_apply, made]

omit hr bodies in
theorem call_type_refuses (hnew : H.heap.slot t .new = .standard)
    (hinit : H.heap.slot t .init = .standard) (excess : 0 < args.size) :
    e.call (.type t) args H.world =
      .error (.error (.type (.takesNoArguments (H.heap.typeAt t).name))) H.world := by
  have fault : newFault? H.heap t (args.withReceiver (.type t)) =
      some (.takesNoArguments (H.heap.typeAt t).name) := by
    rw [newFault?_withReceiver, Heap.overrides_eq_false .new hnew,
      Heap.overrides_eq_false .init hinit, if_neg excess.ne']
    rfl
  have refused : callNew (e.callWithin d) t (.builtin .objectNew) args H.world =
      .error (.error (.type (.takesNoArguments (H.heap.typeAt t).name))) H.world := by
    rw [callNew_objectNew, objectNew_withReceiver]
    dsimp only [History.heap] at fault
    rw [fault]
  rw [call_type (w := H.world) hdepth hmeta (Heap.lookup_new_of_standard hnew), Run.bind_apply,
    refused]

theorem call_type_made (hnew : H.heap.lookup t Slot.new.attr = some new)
    (hinit : H.heap.slot t .init = .standard)
    (passes : args.size = 0 ∨ H.heap.overrides t .new = true)
    (keeps : KeepsClass (callNew (e.callWithin d) t new args) t H.world) :
    e.call (.type t) args H.world = callNew (e.callWithin d) t new args H.world := by
  have ht : H.heap.Has t := Heap.has_of_slot (s := .init) (by simp [hinit])
  rw [call_type_of_keeps hr bodies hdepth hmeta hnew (Heap.lookup_init_of_standard hinit) ht keeps]
  refine (bind_eq_of_ok (g := pure) fun v w made => ?_).trans (congrFun (bind_pure _) _)
  have found := keeps.lookup hr (callNew_moves bodies d t new args) ht made
  refine initializedBy_objectInit fun hinst => ?_
  have own := (keeps v w made).1 hinst
  rcases passes with none | overriding
  · rw [initFault?_withReceiver, if_pos none]
  · apply initFault?_of_new <;> rw [own]
    · exact (Heap.slot_of_lookup (found Slot.init.attr)).trans hinit
    · rw [Heap.overrides, Heap.slot_of_lookup (found Slot.new.attr)]
      exact overriding

end

/-! ## Passing arguments on to `object` -/

theorem call_objectNew (e : Engine) (args : CallArgs) :
    e.call (.builtin .objectNew) args = e.objectNew args :=
  callWithin_builtin e e.depth .objectNew args

theorem call_objectInit (e : Engine) (args : CallArgs) :
    e.call (.builtin .objectInit) args = objectInit args :=
  callWithin_builtin e e.depth .objectInit args

theorem call_objectNew_refuses (overriding : w.heap.overrides t .new = true)
    (excess : 0 < args.size) :
    e.call (.builtin .objectNew) (args.withReceiver (.type t)) w =
      .error (.error (.type .newTakesOneArgument)) w := by
  rw [call_objectNew, objectNew_withReceiver, newFault?_withReceiver, overriding,
    if_neg excess.ne', if_pos rfl]

theorem call_objectInit_refuses (overriding : w.heap.overrides (w.heap.classOf v) .init = true)
    (excess : 0 < args.size) :
    e.call (.builtin .objectInit) (args.withReceiver v) w =
      .error (.error (.type .initTakesOneArgument)) w := by
  rw [call_objectInit, objectInit_withReceiver, initFault?_withReceiver, overriding,
    if_neg excess.ne', if_pos rfl]

/-! ## Main theorem -/

/-- Who takes the arguments of a call of a class, where no metaclass takes over the call, objects
made are of the very class or no instances of it, and attributes of types stay as they are. A class
that has both of what `object` defines takes none, and without arguments it gives what is allocated.
If it has an `__init__` alone, the object is allocated as without arguments and the `__init__` is
called with them all: after the object if it is a function, after the class in a class method. If it
has a `__new__` alone, that is called with them all after the class, and its result stands. Nobody
may pass arguments on to what it overrides in `object`, whenever and with whatever engine it is
called. -/
theorem excess_arguments (hr : Reachable o H) (bodies : Bodies o H.caches False e)
    (hdepth : e.depth = d + 1)
    (hmeta : ((H.heap.typeAt t).metaclass.bind fun m => H.heap.lookup m Slot.call.attr) = none)
    (args : CallArgs) :
    (H.heap.slot t .new = .standard → H.heap.slot t .init = .standard →
      (0 < args.size → e.call (.type t) args H.world =
        .error (.error (.type (.takesNoArguments (H.heap.typeAt t).name))) H.world) ∧
      (args.size = 0 → KeepsClass (e.allocate t) t H.world →
        e.call (.type t) args H.world = e.allocate t H.world)) ∧
    (∀ init, H.heap.slot t .new = .standard → (H.heap.slot t .init).value? = some init →
      KeepsClass (e.allocate t) t H.world → e.call (.type t) args H.world =
        (e.allocate t >>= fun v => initializedBy
          (match init with
            | .function _ | .builtin _ => e.callWithin d init (args.withReceiver v)
            | .staticMethod _ inner => e.callWithin d inner args
            | .classMethod _ inner => e.callWithin d inner (args.withReceiver (.type t))
            | _ => e.callWithin d init args) t v) H.world) ∧
    (∀ new, (H.heap.slot t .new).value? = some new → H.heap.slot t .init = .standard →
      ∀ made, made = (match new with
        | .staticMethod _ inner => e.callWithin d inner (args.withReceiver (.type t))
        | .classMethod _ inner =>
          e.callWithin d inner ((args.withReceiver (.type t)).withReceiver (.type t))
        | _ => e.callWithin d new (args.withReceiver (.type t))) →
      KeepsClass made t H.world → e.call (.type t) args H.world = made H.world) ∧
    ∀ K, Reaches o H K →
      (∀ u, H.heap.Has u → (K.heap.typeAt u).attrs = (H.heap.typeAt u).attrs) →
      ∀ (e' : Engine) (extra : CallArgs), 0 < extra.size →
        (∀ new, (H.heap.slot t .new).value? = some new →
          e'.call (.builtin .objectNew) (extra.withReceiver (.type t)) K.world =
            .error (.error (.type .newTakesOneArgument)) K.world) ∧
        ∀ init v, (H.heap.slot t .init).value? = some init → K.heap.classOf v = t →
          e'.call (.builtin .objectInit) (extra.withReceiver v) K.world =
            .error (.error (.type .initTakesOneArgument)) K.world := by
  refine ⟨fun hnew hinit => ⟨?_, fun none keeps => ?_⟩, fun init hnew hinit keeps => ?_,
    fun new hnew hinit made calls keeps => ?_, fun K run attrs e' extra excess => ?_⟩
  · exact call_type_refuses hdepth hmeta hnew hinit
  · have passes : newFault? H.heap t (args.withReceiver (.type t)) = .none := by
      rw [newFault?_withReceiver, if_pos none]
    have made := callNew_allocates (e := e) (d := d) passes
    rw [call_type_made hr bodies hdepth hmeta (Heap.lookup_new_of_standard hnew) hinit
      (.inl none) (keeps.congr made.symm), made]
  · rw [call_type_allocates hr bodies hdepth hmeta hnew (Heap.lookup_of_value? hinit)
      (Heap.has_of_value? hinit) (newFault?_of_init hnew (Heap.overrides_of_value? hinit) _) keeps]
    cases init <;> rfl
  · obtain rfl : made = callNew (e.callWithin d) t new args := calls.trans (by cases new <;> rfl)
    exact call_type_made hr bodies hdepth hmeta (Heap.lookup_of_value? hnew) hinit
      (.inr (Heap.overrides_of_value? hnew)) keeps
  · have same {s : Slot} {x : Value} (found : (H.heap.slot t s).value? = some x) :
        K.heap.overrides t s = true := by
      have kept := lookup_of_attrs (hr.grows run).heap hr.sane.hierarchy
        (Heap.has_of_value? found) attrs s.attr
      rw [← Heap.slot_of_lookup kept] at found
      exact Heap.overrides_of_value? found
    refine ⟨fun new hnew => call_objectNew_refuses (w := K.world) (same hnew) excess,
      fun init v hinit own => call_objectInit_refuses (w := K.world) ?_ excess⟩
    rw [own]
    exact same hinit

/-! ## Three classes -/

/-- Class A has an `__init__`, B has a `__new__`, and C has neither. There is an object of A. -/
def abc : History :=
  let H := opening #[⟨"__init__", ["self", "x", "y"], false⟩, ⟨"__new__", ["cls", "x", "y"], false⟩]
    { name := "A", attrs := [("__init__", .function ⟨0⟩)] } { signature := .plain 1 }
  let H := H.withHeap (H.heap.tryDefine
    { name := "B", attrs := [("__new__", .staticMethod 0 (.function ⟨1⟩))] })
  let H := H.withHeap (H.heap.tryDefine { name := "C" })
  H.withHeap (H.heap.addObject ⟨1⟩ .object).2

theorem abc_reachable (o : Usage) : Reachable o abc := by
  obtain ⟨functions, run⟩ := opening_reachable o
    #[⟨"__init__", ["self", "x", "y"], false⟩, ⟨"__new__", ["cls", "x", "y"], false⟩]
    (c := { name := "A", attrs := [("__init__", .function ⟨0⟩)] }) rfl rfl
    { signature := .plain 1 }
  have b := run.tail (.heap (.tryDefine
    (c := { name := "B", attrs := [("__new__", .staticMethod 0 (.function ⟨1⟩))] })
    (by simp) (by simp)))
  have c := b.tail (.heap (.tryDefine (c := { name := "C" }) (by simp) (by simp)))
  exact ⟨functions, c.tail (.heap (.aside rfl rfl rfl rfl))⟩

/-- One argument by position and one by name. -/
def given : CallArgs := ⟨[.int 7], [("y", .int 8)]⟩

theorem constant_callWithin {f : FunctionRef} (slots : List Value)
    (bound : (w.heap.functionAt f).bind args w.heap.boxes = .ok slots)
    (fixed : (w.heap.functionAt f).variadic = false) :
    (constant v).callWithin d (.function f) args w =
      .ok v { w with trace := w.trace.push (.function f slots) } := by
  rw [callWithin_function, callFunction_apply, bound, fixed]
  rfl

theorem abc_new : (constant .none).callWithin 0 (.function ⟨1⟩) (given.withReceiver (.type ⟨2⟩))
    abc.world = .ok .none { abc.world with
      trace := #[.function ⟨1⟩ [.type ⟨2⟩, .int 7, .int 8]] } :=
  constant_callWithin _ (by decide +kernel) (by decide +kernel)

theorem abc_keepsClass : KeepsClass ((constant .none).callWithin 0 (.function ⟨1⟩)
    (given.withReceiver (.type ⟨2⟩))) ⟨2⟩ abc.world := by
  intro v w' made
  cases abc_new.symm.trans made
  exact ⟨by simp [Heap.isInstance, TypeRef.object], fun _ _ => rfl⟩

theorem abc_take :
    (constant .none).call (.type ⟨3⟩) given abc.world =
        .error (.error (.type (.takesNoArguments "C"))) abc.world ∧
      (constant .none).call (.type ⟨3⟩) {} abc.world =
        (constant .none).allocate ⟨3⟩ abc.world ∧
      (∃ w, (constant .none).call (.type ⟨1⟩) given abc.world = .ok (.object ⟨1⟩) w ∧
        w.trace = #[.function ⟨0⟩ [.object ⟨1⟩, .int 7, .int 8]]) ∧
      (∃ w, (constant .none).call (.type ⟨2⟩) given abc.world = .ok .none w ∧
        w.trace = #[.function ⟨1⟩ [.type ⟨2⟩, .int 7, .int 8]]) ∧
      (constant .none).call (.builtin .objectNew) (given.withReceiver (.type ⟨2⟩)) abc.world =
        .error (.error (.type .newTakesOneArgument)) abc.world ∧
      (constant .none).call (.builtin .objectInit) (given.withReceiver (.object ⟨0⟩)) abc.world =
        .error (.error (.type .initTakesOneArgument)) abc.world := by
  have take (t : TypeRef) (hmeta : ((abc.heap.typeAt t).metaclass.bind fun m =>
      abc.heap.lookup m Slot.call.attr) = none) :=
    excess_arguments (d := 0) (abc_reachable fun _ _ => True) (constant_bodies .none) rfl hmeta
  obtain ⟨-, initialized, -, -⟩ := take ⟨1⟩ (by decide +kernel) given
  obtain ⟨-, -, made, -⟩ := take ⟨2⟩ (by decide +kernel) given
  obtain ⟨refused, -, -, -⟩ := take ⟨3⟩ (by decide +kernel) given
  obtain ⟨allocated, -, -, -⟩ := take ⟨3⟩ (by decide +kernel) {}
  obtain ⟨-, -, -, initPasses⟩ := take ⟨1⟩ (by decide +kernel) {}
  obtain ⟨-, -, -, newPasses⟩ := take ⟨2⟩ (by decide +kernel) {}
  refine ⟨?_, ?_, ?_, ?_, ?_, ?_⟩
  · have name : (abc.heap.typeAt ⟨3⟩).name = "C" := by decide +kernel
    rw [(refused (by decide +kernel) (by decide +kernel)).1 (by decide), name]
  · exact (allocated (by decide +kernel) (by decide +kernel)).2 rfl
      (keepsClass_of_plain (by decide +kernel))
  · rw [initialized (.function ⟨0⟩) (by decide +kernel) (by decide +kernel)
      (keepsClass_of_plain (by decide +kernel)), Run.bind_apply,
      allocate_plain (by decide +kernel), show abc.world.heap.objects.size = 1 by decide +kernel]
    exact ⟨_, initializedBy_of_ok (by decide +kernel) (constant_callWithin
      [.object ⟨1⟩, .int 7, .int 8] (by decide +kernel) (by decide +kernel)), rfl⟩
  · rw [made (.staticMethod 0 (.function ⟨1⟩)) (by decide +kernel) (by decide +kernel) _ rfl
      abc_keepsClass]
    exact ⟨_, abc_new, rfl⟩
  · exact (newPasses abc .refl (fun _ _ => rfl) _ given (by decide)).1
      (.staticMethod 0 (.function ⟨1⟩)) (by decide +kernel)
  · exact (initPasses abc .refl (fun _ _ => rfl) _ given (by decide)).2
      (.function ⟨0⟩) _ (by decide +kernel) (by decide +kernel)

end Engine

end InlineCache
