import InlineCache.Proofs.CallSteps
import InlineCache.Proofs.PlanBinding

/-! # Calls without caches

`uncached` is what a call through a call site does when nothing is cached: it works the recipe out
anew and follows it. It looks at the heap alone. -/

namespace InlineCache.Engine

open History

variable {o : Usage} {c₀ : Caches} {B : Prop} {e : Engine} {H H' K : History} {ε α β : Type}

/-- Calls a function with a receiver in front; `s` is the signature without it. -/
def relayed (e : Engine) (f : FunctionRef) (s : Signature) (receiver : Value) (args : List Value) :
    Run CallError Value :=
  if e.depth = 0 then throw .exhausted
  else e.general s.withReceiver (.function f) (receiver :: args)

/-- Makes the object. A native constructor needs no relay. -/
def makeObject (e : Engine) (s : Signature) (m : Maker) (t : TypeRef) (args : List Value) :
    Run CallError Value :=
  match m with
  | .native l => e.runAllocation (fun _ _ _ => throw .exhausted) (.native l) t args
  | .user f => e.relayed f s (.type t) args

def finishObject (e : Engine) (s : Signature) (i : Option FunctionRef) (t : TypeRef) (v : Value)
    (args : List Value) : Run CallError Value := do
  match i with
  | none => return v
  | some f =>
    let h ← Run.heap
    if v ≠ .none ∧ h.nativeLayout v = (h.layoutOf t).id then
      let _ ← e.relayed f s v args
    return v

def runRecipe (e : Engine) (s : Signature) (r : Recipe) (t : TypeRef) (args : List Value) :
    Run CallError Value := do
  let v ← e.makeObject s r.maker t args
  e.finishObject s r.initializer t v args

/-- Constructs a type by its recipe. Gives nothing if the type is refused. -/
def cutShort (e : Engine) (settings : Settings) (shape : SiteShape) (t : TypeRef)
    (args : List Value) : Run CallError (Option Value) := do
  match (← Run.heap).recipe settings shape t with
  | .ok r => some <$> e.runRecipe shape.signature r t args
  | .error (.refusal _) => return none
  | .error (.error fault) => Run.fail (.bind fault)

/-- A call through a call site of this shape, with nothing cached. -/
def uncached (e : Engine) (settings : Settings) (shape : SiteShape) (callee : Value)
    (args : List Value) : Run CallError Value := do
  if args.length ≠ shape.signature.arity then
    Run.fail (.bind (.argumentCount shape.signature.arity args.length))
  else match callee with
    | .type t =>
      match ← e.cutShort settings shape t args with
      | some v => return v
      | none => e.general shape.signature callee args
    | _ => e.general shape.signature callee args

/-! ## It is steady -/

theorem relayed_steady (bodies : Bodies o c₀ B e) (f : FunctionRef) (s : Signature) (v : Value)
    (args : List Value) : Steady o c₀ B (e.relayed f s v args) := by
  unfold relayed
  split
  · exact steady_exhausted
  · exact general_steady bodies _ _ _

theorem nativeAllocation_steady (bodies : Bodies o c₀ B e) (relay : CallRelay) (l : LayoutRef)
    (t : TypeRef) (args : List Value) :
    Steady o c₀ B (e.runAllocation relay (.native l) t args) := by
  unfold runAllocation
  refine steady_heap.bind fun h => ?_
  split
  · exact (construct_steady bodies _ _ _ _).mapError _
  · exact steady_heap.bind fun h => steady_fail _

theorem makeObject_steady (bodies : Bodies o c₀ B e) (s : Signature) (m : Maker) (t : TypeRef)
    (args : List Value) : Steady o c₀ B (e.makeObject s m t args) := by
  cases m with
  | native l => exact nativeAllocation_steady bodies (fun _ _ _ => throw .exhausted) l t args
  | user f => exact relayed_steady bodies f s _ args

theorem finishObject_steady (bodies : Bodies o c₀ B e) (s : Signature) (i : Option FunctionRef)
    (t : TypeRef) (v : Value) (args : List Value) :
    Steady o c₀ B (e.finishObject s i t v args) := by
  unfold finishObject
  cases i with
  | none => exact steady_pure v
  | some f =>
    refine steady_heap.bind fun h => ?_
    dsimp only
    split
    · exact (relayed_steady bodies _ s v args).bind fun _ => steady_pure v
    · exact steady_pure v

theorem runRecipe_steady (bodies : Bodies o c₀ B e) (s : Signature) (r : Recipe) (t : TypeRef)
    (args : List Value) : Steady o c₀ B (e.runRecipe s r t args) :=
  (makeObject_steady bodies s _ t args).bind fun v => finishObject_steady bodies s _ t v args

theorem cutShort_steady (bodies : Bodies o c₀ B e) (settings : Settings) (shape : SiteShape)
    (t : TypeRef) (args : List Value) : Steady o c₀ B (e.cutShort settings shape t args) := by
  unfold cutShort
  refine steady_heap.bind fun h => ?_
  split
  · exact (runRecipe_steady bodies _ _ t args).map some
  · exact steady_pure none
  · exact steady_fail _

theorem uncached_steady (bodies : Bodies o c₀ B e) (settings : Settings) (shape : SiteShape)
    (callee : Value) (args : List Value) :
    Steady o c₀ B (e.uncached settings shape callee args) := by
  unfold uncached
  split
  · exact steady_fail _
  · split
    · refine (cutShort_steady bodies settings shape _ args).bind fun v? => ?_
      cases v? with
      | some v => exact steady_pure v
      | none => exact general_steady bodies _ _ args
    · exact general_steady bodies _ _ args

/-! ## What it does -/

section

variable {settings : Settings} {shape : SiteShape} {callee : Value} {t : TypeRef}
  {args : List Value} {w : World}

theorem uncached_of_ne (hargs : args.length ≠ shape.signature.arity) :
    e.uncached settings shape callee args =
      Run.fail (.bind (.argumentCount shape.signature.arity args.length)) :=
  if_pos hargs

theorem uncached_of_not_type (hargs : args.length = shape.signature.arity)
    (hcallee : ∀ t, callee ≠ .type t) :
    e.uncached settings shape callee args = e.general shape.signature callee args := by
  unfold uncached
  rw [if_neg (not_not.mpr hargs)]
  cases callee with
  | type t => exact absurd rfl (hcallee t)
  | _ => rfl

theorem uncached_type (hargs : args.length = shape.signature.arity) :
    e.uncached settings shape (.type t) args = (do
      match ← e.cutShort settings shape t args with
      | some v => return v
      | none => e.general shape.signature (.type t) args) :=
  if_neg (not_not.mpr hargs)

theorem cutShort_of_recipe {r : Recipe} (hr : w.heap.recipe settings shape t = .ok r) :
    e.cutShort settings shape t args w = (some <$> e.runRecipe shape.signature r t args) w := by
  unfold cutShort
  rw [heap_bind, hr]

theorem cutShort_of_refusal {reason : Refusal}
    (hr : w.heap.recipe settings shape t = .error (.refusal reason)) :
    e.cutShort settings shape t args w = .ok none w := by
  unfold cutShort
  rw [heap_bind, hr]
  rfl

end

/-! ## Planned calls -/

theorem mapError_congr {δ : Type} {x y : Run ε α} {w w' : World} (hxy : x w = y w') (f : ε → δ) :
    Run.mapError f x w = Run.mapError f y w' := by
  unfold Run.mapError
  rw [hxy]

theorem callWithin_function (e : Engine) (depth : Nat) (f : FunctionRef) (args : CallArgs) :
    e.callWithin depth (.function f) args = e.callFunction f args := by
  cases depth <;> rfl

theorem callPlanned_eq {f : FunctionRef} {plan : Option (List Nat)} {s : Signature} {w : World}
    (hplan : plan = Plan.make? (w.heap.functionAt f) s) {args : List Value}
    (hargs : args.length = s.arity) :
    e.callPlanned f plan s args w = e.callWritten s (.function f) args w := by
  cases plan with
  | none =>
    unfold callPlanned callWritten call
    simp only [callWithin_function]
  | some plan =>
    obtain ⟨hvariadic, laid, hlaid, hbind⟩ :=
      Plan.bind_of_make hplan.symm w.heap.typeName hargs
    have hwritten : e.callWritten s (.function f) args w = e.callFunction f laid w := by
      unfold callWritten
      rw [heap_bind, hlaid]
      change e.callWithin e.depth (.function f) laid w = _
      rw [callWithin_function]
    rw [hwritten]
    unfold callPlanned callFunction
    rw [heap_bind]
    dsimp only
    rw [heap_bind, hbind w.heap.boxes, hvariadic]
    rfl

end InlineCache.Engine
