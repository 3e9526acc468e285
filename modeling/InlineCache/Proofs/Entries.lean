import InlineCache.Proofs.Construction
import InlineCache.Proofs.Slots

/-! # What a call enters first

Calls add the bodies that they enter to the trace, and as long as no body takes anything back from
it, no call does. A call that gets neither a certain object as its receiver nor as many arguments as
one with it enters no function as a call with it would. -/

namespace InlineCache

/-! ## The trace only grows -/

namespace Run

variable {ε α β : Type}

/-- Bodies entered are added to the trace, and nothing is taken from it. -/
def Extends (x : Run ε α) : Prop := ∀ w, w.trace.toList <+: (world (x w)).trace.toList

theorem Extends.bind {x : Run ε α} {f : α → Run ε β} (hx : Extends x) (hf : ∀ a, Extends (f a)) :
    Extends (x >>= f) := by
  intro w
  have first := hx w
  rw [bind_apply]
  cases h : x w with
  | ok a w' =>
    rw [h] at first
    exact first.trans (hf a w')
  | error s w' =>
    rw [h] at first
    exact first

theorem extends_closed : Closed fun x => Extends x where
  pure _ _ := List.prefix_rfl
  throw _ _ := List.prefix_rfl
  heap _ := List.prefix_rfl
  onHeap _ _ := List.prefix_rfl
  bind hx hf := hx.bind hf
  mapError f hx w := by
    rw [History.world_mapError]
    exact hx w

end Run

namespace Engine

variable {e : Engine}

/-- No body takes anything back from the trace. -/
def Extends (e : Engine) : Prop := ∀ E, Run.Extends (e.run E)

theorem Extends.enter (extend : e.Extends) (E : Entry) : Run.Extends (e.enter E) := by
  intro w
  refine List.IsPrefix.trans ?_ (extend E { w with trace := w.trace.push E })
  rw [Array.toList_push]
  exact List.prefix_append _ _

theorem Extends.callWithin (extend : e.Extends) (d : Nat) (v : Value) (args : CallArgs) :
    Run.Extends (e.callWithin d v args) :=
  callWithin_closed Run.extends_closed extend.enter d v args

end Engine

/-- The class of a value; plain data is of class `object`. -/
def Heap.classOf (h : Heap) : Value → TypeRef
  | .object i => (h.objectAt i).type
  | _ => .object

namespace Engine

open History

variable {e : Engine} {ε : Type}

/-! ## What is entered next -/

section

variable {α : Type} {w : World} {E E' : Entry}

/-- Right after `w`, the run enters this body with these arguments. -/
def EntersNext (w : World) (r : EStateM.Result (Stop ε) World α) (E : Entry) : Prop :=
  (w.trace.push E).toList <+: (Run.world r).trace.toList

theorem entersNext_congr {δ β : Type} {r : EStateM.Result (Stop ε) World α}
    {r' : EStateM.Result (Stop δ) World β} (same : (Run.world r).trace = (Run.world r').trace) :
    EntersNext w r E ↔ EntersNext w r' E := by
  rw [EntersNext, EntersNext, same]

theorem entersNext_mapError {δ : Type} {f : ε → δ} {x : Run ε α} {w' : World} :
    EntersNext w (Run.mapError f x w') E ↔ EntersNext w (x w') E :=
  entersNext_congr (congrArg World.trace (world_mapError f x w'))

theorem not_entersNext {r : EStateM.Result (Stop ε) World α}
    (same : (Run.world r).trace = w.trace) : ¬ EntersNext w r E := by
  intro enters
  have hle := enters.length_le
  rw [same, Array.toList_push, List.length_append] at hle
  simp at hle

theorem EntersNext.unique {r : EStateM.Result (Stop ε) World α} (h : EntersNext w r E)
    (h' : EntersNext w r E') : E = E' := by
  -- Both entries stand at the same place.
  have same := (List.prefix_of_prefix_length_le h h' (by simp)).eq_of_length (by simp)
  rw [Array.toList_push, Array.toList_push] at same
  exact List.singleton_inj.mp (List.append_cancel_left same)

theorem EntersNext.bind {β : Type} {x : Run ε α} {k : α → Run ε β} {w' : World}
    (h : EntersNext w (x w') E) (extend : ∀ a, Run.Extends (k a)) :
    EntersNext w ((x >>= k) w') E := by
  unfold EntersNext at h ⊢
  rw [Run.bind_apply]
  cases hx : x w' with
  | ok a w₁ =>
    rw [hx] at h
    exact h.trans (extend a w₁)
  | error st w₁ =>
    rw [hx] at h
    exact h

end

theorem Extends.enters (extend : e.Extends) (E : Entry) (w : World) :
    EntersNext w (e.enter E w) E :=
  extend E { w with trace := w.trace.push E }

theorem callFunction_apply (e : Engine) (f : FunctionRef) (args : CallArgs) (w : World) :
    e.callFunction f args w =
      match (w.heap.functionAt f).bind args w.heap.boxes with
      | .error fault => .error (.error fault) w
      | .ok slots => e.enter (.function f slots)
          (if (w.heap.functionAt f).variadic then { w with heap := w.heap.addBox.2 } else w) := by
  unfold callFunction
  rw [heap_bind]
  dsimp only
  rw [heap_bind]
  cases (w.heap.functionAt f).bind args w.heap.boxes with
  | error fault => rfl
  | ok slots =>
    change (if (w.heap.functionAt f).variadic then _ else _ : Run RuntimeError Value) w = _
    split <;> rfl

/-! ## The class of a value -/

theorem initObject_of_instance {call : Value → CallArgs → Run RuntimeError Value} {t : TypeRef}
    {v : Value} {args : CallArgs} {w : World} (hinst : w.heap.isInstance v t = true) :
    initObject call t v args w = match w.heap.lookup (w.heap.classOf v) Slot.init.attr with
      | none => .ok v w
      | some init => (callInit call (w.heap.classOf v) init v args >>= accept v) w := by
  unfold initObject
  rw [heap_bind, hinst]
  simp only [Bool.not_true, Bool.false_eq_true, if_false]
  cases v with
  | object i =>
    simp only [Heap.classOf]
    cases w.heap.lookup (w.heap.objectAt i).type Slot.init.attr <;> rfl
  | _ =>
    obtain rfl : t = .object := by simpa [Heap.isInstance] using hinst
    simp only [Heap.classOf]
    cases w.heap.lookup .object Slot.init.attr <;> rfl

/-! ## Runs that start elsewhere -/

/-- Nothing was entered, and what was there before still is. -/
structure Quiet (w w' : World) : Prop where
  trace : w'.trace = w.trace
  functions : w'.heap.functions = w.heap.functions
  objects : w.heap.objects.size ≤ w'.heap.objects.size

theorem Quiet.refl (w : World) : Quiet w w := ⟨rfl, rfl, Nat.le_refl _⟩

theorem Quiet.trans {w₁ w₂ w₃ : World} (a : Quiet w₁ w₂) (b : Quiet w₂ w₃) : Quiet w₁ w₃ :=
  ⟨b.trace.trans a.trace, b.functions.trans a.functions, a.objects.trans b.objects⟩

/-- The run from `w` enters something else than `E` first, or nothing, and then it does not give
`v`. -/
inductive Avoids (E : Entry) (v : Value) (w : World) (r : EStateM.Result (Stop ε) World Value) :
    Prop
  | quiet (quiet : Quiet w (Run.world r)) (other : ∀ a w', r = .ok a w' → a ≠ v)
  | entered {first : Entry} (ne : first ≠ E) (next : EntersNext w r first)

variable {E : Entry} {v : Value} {w w' : World}

theorem avoids_error (s : Stop ε) (w : World) : Avoids E v w (.error s w) :=
  .quiet (.refl w) (by simp)

theorem avoids_ok {a : Value} (ha : a ≠ v) (w : World) :
    Avoids E v w (.ok a w : EStateM.Result (Stop ε) World Value) :=
  .quiet (.refl w) (by rintro _ _ ⟨⟩; exact ha)

theorem Avoids.after {r : EStateM.Result (Stop ε) World Value} (q : Quiet w w')
    (h : Avoids E v w' r) : Avoids E v w r := by
  cases h with
  | quiet quiet other => exact .quiet (q.trans quiet) other
  | entered ne next =>
    refine .entered ne ?_
    rwa [EntersNext, ← q.trace]

theorem Avoids.bind {x : Run ε Value} {f : Value → Run ε Value} (hx : Avoids E v w (x w))
    (extend : ∀ a, Run.Extends (f a))
    (hf : ∀ a w', Quiet w w' → a ≠ v → Avoids E v w' (f a w')) : Avoids E v w ((x >>= f) w) := by
  cases hx with
  | entered ne next => exact .entered ne (next.bind extend)
  | quiet quiet other =>
    rw [Run.bind_apply]
    cases h : x w with
    | error s w' =>
      rw [h] at quiet
      exact .quiet quiet (by simp)
    | ok a w' =>
      rw [h] at quiet
      exact (hf a w' quiet (other a w' h)).after quiet

theorem Extends.avoids (extend : e.Extends) {first : Entry} (ne : first ≠ E) (w : World) :
    Avoids E v w (e.enter first w) :=
  .entered ne (extend.enters first w)

theorem Avoids.not_entersNext {r : EStateM.Result (Stop ε) World Value} (h : Avoids E v w r) :
    ¬ EntersNext w r E := by
  cases h with
  | quiet quiet other => exact Engine.not_entersNext quiet.trace
  | entered ne next => exact fun enters => ne (next.unique enters)

/-! ## Calls without the receiver -/

/-- A function gets these slots with this object as its receiver; the object is there. -/
structure Target (w : World) (f : FunctionRef) (slots : List Value) (i : InstanceRef) : Prop where
  has : i.index < w.heap.objects.size
  binds : ∃ a box, (w.heap.functionAt f).bind (CallArgs.withReceiver a (.object i)) box = .ok slots

/-- The function does not get these slots from these arguments. -/
def Misses (w : World) (f : FunctionRef) (slots : List Value) (args : CallArgs) : Prop :=
  ∀ box, (w.heap.functionAt f).bind args box ≠ .ok slots

variable {f : FunctionRef} {slots : List Value} {i : InstanceRef} {args : CallArgs}

theorem Target.misses_receiver (t : Target w f slots i) {v : Value} (hv : v ≠ .object i)
    (args : CallArgs) : Misses w f slots (args.withReceiver v) := by
  obtain ⟨a, box, hbind⟩ := t.binds
  exact fun box' hbind' => hv (FunctionRecord.head_of_bind hbind' hbind)

theorem functionAt_of_quiet (q : Quiet w w') (f : FunctionRef) :
    w'.heap.functionAt f = w.heap.functionAt f := by
  rw [Heap.functionAt, Heap.functionAt, q.functions]

theorem Target.after (t : Target w f slots i) (q : Quiet w w') : Target w' f slots i :=
  ⟨t.has.trans_le q.objects, by rw [functionAt_of_quiet q]; exact t.binds⟩

theorem Misses.after (m : Misses w f slots args) (q : Quiet w w') : Misses w' f slots args := by
  unfold Misses
  rw [functionAt_of_quiet q]
  exact m

theorem callFunction_avoids (extend : e.Extends) {g : FunctionRef}
    (h : g = f → Misses w f slots args) :
    Avoids (.function f slots) v w (e.callFunction g args w) := by
  rw [callFunction_apply]
  cases hbind : (w.heap.functionAt g).bind args w.heap.boxes with
  | error fault => exact avoids_error _ w
  | ok out =>
    have ne : Entry.function g out ≠ .function f slots := by
      intro same
      injection same with hg hout
      subst hg hout
      exact h rfl _ hbind
    have quiet : Quiet w (if (w.heap.functionAt g).variadic then
        { w with heap := w.heap.addBox.2 } else w) := by
      split
      · exact ⟨rfl, rfl, Nat.le_refl _⟩
      · exact .refl w
    exact (extend.avoids ne _).after quiet

theorem construct_avoids (extend : e.Extends) (hi : i.index < w.heap.objects.size) (l : LayoutRef)
    (n : Nat) (ctor : NativeCtor) (args : List Value) :
    Avoids (.function f slots) (.object i) w (e.construct l n ctor args w) := by
  unfold construct
  cases ctor.body with
  | custom =>
    have ne : Entry.ctor l n args ≠ .function f slots := by simp
    exact extend.avoids ne w
  | plain =>
    dsimp only
    split
    · refine .quiet ⟨rfl, rfl, ?_⟩ ?_
      · change _ ≤ (w.heap.objects.push _).size
        simp
      · rintro a w' ⟨⟩ heq
        cases heq
        exact absurd hi (Nat.lt_irrefl _)
    · exact avoids_error _ w

theorem allocate_avoids (extend : e.Extends) (hi : i.index < w.heap.objects.size) (t : TypeRef) :
    Avoids (.function f slots) (.object i) w (e.allocate t w) := by
  unfold allocate allocateIn
  rw [heap_bind, Run.bind_apply, heap_bind]
  cases (w.heap.layoutAt (w.heap.typeAt t).layout).choose? [.type t] with
  | none => exact avoids_error _ w
  | some found =>
    obtain ⟨n, ctor⟩ := found
    have avoids : Avoids (.function f slots) (.object i) w
        (e.construct (w.heap.typeAt t).layout n ctor [.type t] w) :=
      construct_avoids extend hi _ n ctor _
    dsimp only
    rw [← bind_pure_comp, Run.bind_apply]
    cases h : e.construct (w.heap.typeAt t).layout n ctor [.type t] w with
    | ok a w' =>
      rw [h] at avoids
      exact avoids
    | error s w' =>
      rw [h] at avoids
      exact avoids

theorem objectNew_avoids (extend : e.Extends) (hi : i.index < w.heap.objects.size)
    (args : CallArgs) :
    Avoids (.function f slots) (.object i) w (e.objectNew args w) := by
  unfold objectNew
  cases args.positional.head? with
  | none => exact avoids_error _ w
  | some a =>
    cases a with
    | type t =>
      dsimp only
      rw [heap_bind]
      cases newFault? w.heap t args with
      | none => exact allocate_avoids extend hi t
      | some fault => exact avoids_error _ w
    | _ => exact avoids_error _ w

theorem objectInit_avoids (args : CallArgs) :
    Avoids (.function f slots) (.object i) w (objectInit args w) := by
  unfold objectInit
  cases args.positional.head? with
  | none => exact avoids_error _ w
  | some receiver =>
    dsimp only
    rw [heap_bind]
    cases initFault? w.heap receiver args with
    | none => exact avoids_ok (by simp) w
    | some fault => exact avoids_error _ w

theorem callBuiltin_avoids (extend : e.Extends) (hi : i.index < w.heap.objects.size)
    (b : BuiltinRef) (args : CallArgs) :
    Avoids (.function f slots) (.object i) w (e.callBuiltin b args w) := by
  cases b with
  | objectNew => exact objectNew_avoids extend hi args
  | objectInit => exact objectInit_avoids args
  | added n =>
    have ne : Entry.builtin n args ≠ .function f slots := by simp
    exact extend.avoids ne w

/-! ## Construction without the receiver -/

section

variable {call : Value → CallArgs → Run RuntimeError Value}
  (extends_call : ∀ v args, Run.Extends (call v args))
  (avoids_call : ∀ {w}, Target w f slots i → ∀ v args, Misses w f slots args →
    Avoids (.function f slots) (.object i) w (call v args w))

include avoids_call in
theorem callNew_avoids (target : Target w f slots i) (t : TypeRef) (new : Value)
    (args : CallArgs) :
    Avoids (.function f slots) (.object i) w (callNew call t new args w) := by
  have misses := target.misses_receiver (v := .type t) (by simp)
  cases new <;> exact avoids_call target _ _ (misses _)

include avoids_call in
theorem callInit_avoids (target : Target w f slots i) (owner : TypeRef) (init : Value)
    {receiver : Value} (hreceiver : receiver ≠ .object i) {args : CallArgs}
    (misses : Misses w f slots args) :
    Avoids (.function f slots) (.object i) w (callInit call owner init receiver args w) := by
  have received := target.misses_receiver hreceiver
  have owned := target.misses_receiver (v := .type owner) (by simp)
  cases init with
  | function | builtin => exact avoids_call target _ _ (received _)
  | classMethod => exact avoids_call target _ _ (owned _)
  | _ => exact avoids_call target _ _ misses

theorem accept_extends (v x : Value) : Run.Extends (accept v x) := by
  unfold accept
  split
  · exact Run.extends_closed.pure v
  · exact Run.extends_closed.bind Run.extends_closed.heap fun h => Run.extends_closed.fail _

theorem accept_avoids {v x : Value} (hv : v ≠ .object i) :
    Avoids (.function f slots) (.object i) w (accept v x w) := by
  cases x with
  | none => exact avoids_ok hv w
  | _ => exact avoids_error _ w

include avoids_call in
theorem initObject_avoids (target : Target w f slots i) (t : TypeRef) {receiver : Value}
    (hreceiver : receiver ≠ .object i) {args : CallArgs} (misses : Misses w f slots args) :
    Avoids (.function f slots) (.object i) w (initObject call t receiver args w) := by
  cases hinst : w.heap.isInstance receiver t with
  | false =>
    rw [initObject_of_not_instance hinst]
    exact avoids_ok hreceiver w
  | true =>
    rw [initObject_of_instance hinst]
    cases w.heap.lookup (w.heap.classOf receiver) Slot.init.attr with
    | none => exact avoids_ok hreceiver w
    | some init =>
      refine (callInit_avoids avoids_call target _ init hreceiver misses).bind
        (accept_extends receiver) ?_
      exact fun x w' _ _ => accept_avoids hreceiver

include extends_call avoids_call in
theorem instantiate_avoids (target : Target w f slots i) (t : TypeRef) {args : CallArgs}
    (misses : Misses w f slots args) :
    Avoids (.function f slots) (.object i) w (instantiate call t args w) := by
  have received := target.misses_receiver (v := .type t) (by simp)
  unfold instantiate
  rw [heap_bind]
  cases (w.heap.typeAt t).metaclass.bind fun m => w.heap.lookup m Slot.call.attr with
  | some g => exact avoids_call target g _ (received _)
  | none =>
    dsimp only
    cases w.heap.lookup t Slot.new.attr with
    | none => exact avoids_error _ w
    | some new =>
      refine (callNew_avoids avoids_call target t new args).bind
        (fun v => initObject_closed Run.extends_closed extends_call t v args) ?_
      intro v w' quiet hv
      exact initObject_avoids avoids_call (target.after quiet) t hv (misses.after quiet)

end

/-- A call that does not give the function these slots enters something else first. -/
theorem callWithin_avoids (extend : e.Extends) (d : Nat) (target : Target w f slots i) (v : Value)
    {args : CallArgs} (misses : Misses w f slots args) :
    Avoids (.function f slots) (.object i) w (e.callWithin d v args w) := by
  induction d generalizing v args w with
  | zero =>
    unfold callWithin
    cases v.callee with
    | function g => exact callFunction_avoids extend fun _ => misses
    | builtin b => exact callBuiltin_avoids extend target.has b args
    | _ => exact avoids_error _ w
  | succ d ih =>
    unfold callWithin
    cases v.callee with
    | function g => exact callFunction_avoids extend fun _ => misses
    | builtin b => exact callBuiltin_avoids extend target.has b args
    | type t =>
      exact instantiate_avoids (extend.callWithin d) (fun target v args => ih target v) target t
        misses
    | _ => exact avoids_error _ w

end Engine

end InlineCache
