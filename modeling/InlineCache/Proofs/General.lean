import InlineCache.Proofs.Moves

/-! # What the general protocol passes on

The general protocol reads the heap, makes objects and enters bodies. It looks at no caches. What
holds of such runs, and of whatever is made of runs of which it holds, holds of every call. -/

namespace InlineCache

/-- The property holds of runs that read or change the heap, and of runs made of such runs. -/
structure Closed (P : ∀ {ε α : Type}, Run ε α → Prop) : Prop where
  pure : ∀ {ε α : Type} (a : α), P (pure a : Run ε α)
  throw : ∀ {ε α : Type} (s : Stop ε), P (throw s : Run ε α)
  heap : ∀ {ε : Type}, P (Run.heap : Run ε Heap)
  onHeap : ∀ {ε α : Type} {f : Heap → α × Heap}, (∀ h : Heap, h.Change (f h).2) →
    P (Run.onHeap f : Run ε α)
  bind : ∀ {ε α β : Type} {x : Run ε α} {f : α → Run ε β}, P x → (∀ a, P (f a)) → P (x >>= f)
  mapError : ∀ {ε α δ : Type} {x : Run ε α} (f : ε → δ), P x → P (Run.mapError f x)

namespace Closed

variable {P : ∀ {ε α : Type}, Run ε α → Prop} {ε α β : Type}

theorem fail (c : Closed P) (e : ε) : P (Run.fail e : Run ε α) := c.throw (.error e)

theorem ofExcept (c : Closed P) (x : Except ε α) : P (Run.ofExcept x) := by
  cases x with
  | ok a => exact c.pure a
  | error e => exact c.fail e

theorem map (c : Closed P) {x : Run ε α} (hx : P x) (f : α → β) : P (f <$> x) :=
  c.bind hx fun a => c.pure (f a)

theorem modifyHeap (c : Closed P) {f : Heap → Heap} (hf : ∀ h : Heap, h.Change (f h)) :
    P (Run.modifyHeap f : Run ε Unit) :=
  c.onHeap (f := fun h => ((), f h)) hf

end Closed

theorem History.steady_closed (o : Usage) (c₀ : Caches) (B : Prop) :
    Closed fun x => Steady o c₀ B x where
  pure a := steady_pure a
  throw s := steady_of_eq (r := .error s) fun _ => rfl
  heap := steady_heap
  onHeap hf := steady_onHeap hf
  bind hx hf := hx.bind hf
  mapError f hx := hx.mapError f

theorem History.moves_closed (o : Usage) (c₀ : Caches) : Closed fun x => Moves o c₀ x where
  pure a := (steady_pure (B := True) a).moves
  throw s := (steady_of_eq (B := True) (r := .error s) fun _ => rfl).moves
  heap := (steady_heap (B := True)).moves
  onHeap hf := (steady_onHeap (B := True) hf).moves
  bind hx hf := hx.bind hf
  mapError f hx H hfrom := by
    rw [world_mapError]
    exact hx H hfrom

namespace Engine

open History

theorem addBox_change (h : Heap) : h.Change h.addBox.2 := .aside rfl rfl rfl rfl

section

variable {P : ∀ {ε α : Type}, Run ε α → Prop} {e : Engine} (c : Closed P)
  (enters : ∀ E, P (e.enter E))

include c

/-! ## Functions and constructors -/

include enters in
theorem callFunction_closed (f : FunctionRef) (args : CallArgs) : P (e.callFunction f args) := by
  unfold callFunction
  refine c.bind c.heap fun h => c.bind c.heap fun h' => c.bind (c.ofExcept _) fun bound => ?_
  dsimp only
  split
  · exact c.bind (c.modifyHeap addBox_change) fun _ => enters _
  · exact enters _

include enters in
theorem construct_closed (l : LayoutRef) (i : Nat) (ctor : NativeCtor) (args : List Value) :
    P (e.construct l i ctor args) := by
  unfold construct
  split
  · exact enters _
  · split
    · refine c.bind c.heap fun h => c.map (c.onHeap fun h => ?_) _
      exact .aside rfl rfl rfl rfl
    · exact c.fail _

include enters in
theorem allocateIn_closed (l : LayoutRef) (t : TypeRef) : P (e.allocateIn l t) := by
  unfold allocateIn
  refine c.bind c.heap fun h => ?_
  split
  · exact c.pure _
  · exact c.map (construct_closed c enters _ _ _ _) _

include enters in
theorem allocate_closed (t : TypeRef) : P (e.allocate t) := by
  unfold allocate
  refine c.bind c.heap fun h => c.bind (allocateIn_closed c enters _ t) fun v? => ?_
  cases v? with
  | some v => exact c.pure v
  | none => exact c.fail _

/-! ## Built-in functions -/

include enters in
theorem objectNew_closed (args : CallArgs) : P (e.objectNew args) := by
  unfold objectNew
  split
  · refine c.bind c.heap fun h => ?_
    split
    · exact c.fail _
    · exact allocate_closed c enters _
  · exact c.fail _

theorem objectInit_closed (args : CallArgs) : P (objectInit args) := by
  unfold objectInit
  split
  · exact c.fail _
  · refine c.bind c.heap fun h => ?_
    split
    · exact c.fail _
    · exact c.pure _

include enters in
theorem callBuiltin_closed (b : BuiltinRef) (args : CallArgs) : P (e.callBuiltin b args) := by
  cases b with
  | objectNew => exact objectNew_closed c enters args
  | objectInit => exact objectInit_closed c args
  | added i => exact enters _

/-! ## Construction -/

section

variable {call : Value → CallArgs → Run RuntimeError Value} (hcall : ∀ v args, P (call v args))

include hcall

omit c in
theorem callNew_closed (t : TypeRef) (new : Value) (args : CallArgs) :
    P (callNew call t new args) := by
  unfold callNew
  split <;> exact hcall _ _

omit c in
theorem callInit_closed (owner : TypeRef) (init receiver : Value) (args : CallArgs) :
    P (callInit call owner init receiver args) := by
  unfold callInit
  split <;> exact hcall _ _

theorem initObject_closed (t : TypeRef) (v : Value) (args : CallArgs) :
    P (initObject call t v args) := by
  unfold initObject
  refine c.bind c.heap fun h => ?_
  split
  · exact c.pure v
  · dsimp only
    split
    · exact c.pure v
    · refine c.bind (callInit_closed hcall _ _ v args) fun result => ?_
      split
      · exact c.pure v
      · exact c.bind c.heap fun h => c.fail _

theorem instantiate_closed (t : TypeRef) (args : CallArgs) : P (instantiate call t args) := by
  unfold instantiate
  refine c.bind c.heap fun h => ?_
  split
  · exact hcall _ _
  · split
    · exact c.fail _
    · exact c.bind (callNew_closed hcall t _ args) fun v => initObject_closed c hcall t v args

end

include enters in
theorem callWithin_closed (depth : Nat) (v : Value) (args : CallArgs) :
    P (e.callWithin depth v args) := by
  induction depth generalizing v args with
  | zero =>
    unfold callWithin
    split
    · exact callFunction_closed c enters _ args
    · exact callBuiltin_closed c enters _ args
    · contradiction
    · exact c.throw .exhausted
    · exact c.bind c.heap fun h => c.fail _
  | succ depth ih =>
    unfold callWithin
    split
    · exact callFunction_closed c enters _ args
    · exact callBuiltin_closed c enters _ args
    · rename_i heq
      cases heq
      exact instantiate_closed c ih _ args
    · contradiction
    · exact c.bind c.heap fun h => c.fail _

include enters in
theorem callWritten_closed (s : Signature) (callee : Value) (args : List Value) :
    P (e.callWritten s callee args) := by
  unfold callWritten
  refine c.bind c.heap fun h => c.bind (c.ofExcept _) fun laid => ?_
  exact callWithin_closed c enters e.depth callee laid

include enters in
theorem general_closed (s : Signature) (callee : Value) (args : List Value) :
    P (e.general s callee args) :=
  c.mapError _ (callWritten_closed c enters s callee args)

include enters in
theorem callPlanned_closed (f : FunctionRef) (plan : Option (List Nat)) (s : Signature)
    (args : List Value) : P (e.callPlanned f plan s args) := by
  unfold callPlanned
  split
  · exact enters _
  · refine c.bind c.heap fun h => c.bind (c.ofExcept _) fun laid => ?_
    exact callFunction_closed c enters f laid

/-! ## Shortcuts -/

section

variable {relay : CallRelay} (hrelay : ∀ r v args, P (relay r v args))

include hrelay

include enters in
theorem runAllocation_closed (a : Allocation) (t : TypeRef) (args : List Value) :
    P (e.runAllocation relay a t args) := by
  unfold runAllocation
  split
  · refine c.bind c.heap fun h => ?_
    split
    · exact c.mapError _ (construct_closed c enters _ _ _ _)
    · exact c.bind c.heap fun h => c.fail _
  · exact hrelay _ _ _

theorem runInitializer_closed (i : Option RelayRef) (t : TypeRef) (v : Value)
    (args : List Value) : P (runInitializer relay i t v args) := by
  unfold runInitializer
  cases i with
  | none => exact c.pure v
  | some init =>
    refine c.bind c.heap fun h => ?_
    dsimp only
    split
    · exact c.bind (hrelay _ _ _) fun _ => c.pure v
    · exact c.pure v

include enters in
theorem runShortcut_closed (k : Shortcut) (t : TypeRef) (args : List Value) :
    P (e.runShortcut relay k t args) :=
  c.bind (runAllocation_closed c enters hrelay _ t args) fun v =>
    runInitializer_closed c hrelay _ t v args

end

end

/-! ## Steady calls -/

section

variable {o : Usage} {c₀ : Caches} {B : Prop} {e : Engine} (bodies : Bodies o c₀ B e)

include bodies

theorem construct_steady (l : LayoutRef) (i : Nat) (ctor : NativeCtor) (args : List Value) :
    Steady o c₀ B (e.construct l i ctor args) :=
  construct_closed (steady_closed o c₀ B) bodies.enter l i ctor args

theorem general_steady (s : Signature) (callee : Value) (args : List Value) :
    Steady o c₀ B (e.general s callee args) :=
  general_closed (steady_closed o c₀ B) bodies.enter s callee args

theorem callPlanned_steady (f : FunctionRef) (plan : Option (List Nat)) (s : Signature)
    (args : List Value) : Steady o c₀ B (e.callPlanned f plan s args) :=
  callPlanned_closed (steady_closed o c₀ B) bodies.enter f plan s args

end

end Engine

end InlineCache
