import InlineCache.Parameters
import InlineCache.Slot
import InlineCache.World

/-! # The general call protocol

Any value can be called: functions and built-in functions run, types are constructed, static methods
pass the call on. Construction resolves `__new__` and `__init__` anew each time. `call` nests at
most `depth` constructions between two bodies.
-/

namespace InlineCache

namespace Engine

/-! ## Functions -/

/-- Binds the arguments and enters the function. -/
def callFunction (e : Engine) (f : FunctionRef) (args : CallArgs) : Run RuntimeError Value := do
  let fn := (← Run.heap).functionAt f
  let bound ← Run.ofExcept (fn.bind args (← Run.heap).boxes)
  if fn.variadic then
    Run.modifyHeap fun h => h.addBox.2
  e.enter (.function f bound)

/-! ## Native constructors -/

/-- Runs a constructor of a layout. -/
def construct (e : Engine) (l : LayoutRef) (i : Nat) (c : NativeCtor) (args : List Value) :
    Run RuntimeError Value := do
  match c.body with
  | .custom => e.enter (.ctor l i args)
  | .plain =>
    match args with
    | [.type t] =>
      let id := ((← Run.heap).layoutAt l).id
      .object <$> Run.onHeap (·.addObject t id)
    | _ => Run.fail (.type .allocatorNeedsType)

/-- Allocates an instance of a type through the constructors of a layout, if one fits. -/
def allocateIn (e : Engine) (l : LayoutRef) (t : TypeRef) : Run RuntimeError (Option Value) := do
  match ((← Run.heap).layoutAt l).choose? [.type t] with
  | none => pure none
  | some (i, c) => some <$> e.construct l i c [.type t]

/-- Allocates an instance of a type through its own layout. -/
def allocate (e : Engine) (t : TypeRef) : Run RuntimeError Value := do
  let h ← Run.heap
  match ← e.allocateIn (h.typeAt t).layout t with
  | some v => pure v
  | none => Run.fail (.notInstantiable (h.typeAt t).name)

/-! ## What `object` defines -/

/-- Why `object.__new__` does not take these arguments for a type. -/
def newFault? (h : Heap) (t : TypeRef) (args : CallArgs) : Option TypeFault :=
  if args.size ≤ 1 then none
  else if h.overrides t .new then some .newTakesOneArgument
  else if !h.overrides t .init then some (.takesNoArguments (h.typeAt t).name)
  else none

/-- `object.__new__`: further arguments are allowed only if the class takes them in `__init__`. -/
def objectNew (e : Engine) (args : CallArgs) : Run RuntimeError Value := do
  match args.positional.head? with
  | some (.type t) =>
    match newFault? (← Run.heap) t args with
    | some fault => Run.fail (.type fault)
    | none => e.allocate t
  | _ => Run.fail (.type .newWithoutType)

/-- Why `object.__init__` does not take these arguments for a receiver. -/
def initFault? (h : Heap) (receiver : Value) (args : CallArgs) : Option TypeFault :=
  let t := match receiver with
    | .object i => (h.objectAt i).type
    | _ => .object
  if args.size ≤ 1 then none
  else if h.overrides t .init then some .initTakesOneArgument
  else if !h.overrides t .new then some (.takesNoArguments (h.typeAt t).name)
  else none

/-- `object.__init__`: further arguments are allowed only if the class takes them in `__new__`. -/
def objectInit (args : CallArgs) : Run RuntimeError Value := do
  match args.positional.head? with
  | none => Run.fail (.type .initWithoutReceiver)
  | some receiver =>
    match initFault? (← Run.heap) receiver args with
    | some fault => Run.fail (.type fault)
    | none => pure .none

/-- Runs a built-in function. An added one does its own binding. -/
def callBuiltin (e : Engine) (b : BuiltinRef) (args : CallArgs) : Run RuntimeError Value :=
  match b with
  | .objectNew => e.objectNew args
  | .objectInit => objectInit args
  | .added i => e.enter (.builtin i args)

/-! ## Construction -/

/-- Calls what stands in `__new__`. It gets the class first; as a class method, twice. -/
def callNew (call : Value → CallArgs → Run RuntimeError Value) (t : TypeRef) (new : Value)
    (args : CallArgs) : Run RuntimeError Value :=
  match new with
  | .staticMethod _ inner => call inner (args.withReceiver (.type t))
  | .classMethod _ inner => call inner ((args.withReceiver (.type t)).withReceiver (.type t))
  | other => call other (args.withReceiver (.type t))

/-- Calls what stands in `__init__`, bound to the instance like any method. -/
def callInit (call : Value → CallArgs → Run RuntimeError Value) (owner : TypeRef) (init : Value)
    (receiver : Value) (args : CallArgs) : Run RuntimeError Value :=
  match init with
  | .function _ | .builtin _ => call init (args.withReceiver receiver)
  | .staticMethod _ inner => call inner args
  | .classMethod _ inner => call inner (args.withReceiver (.type owner))
  | other => call other args

/-- Initializes a new object, if it is an instance of the class that was called. -/
def initObject (call : Value → CallArgs → Run RuntimeError Value) (t : TypeRef) (v : Value)
    (args : CallArgs) : Run RuntimeError Value := do
  let h ← Run.heap
  if !h.isInstance v t then return v
  let owner := match v with
    | .object i => (h.objectAt i).type
    | _ => t
  match h.lookup owner Slot.init.attr with
  | none => return v
  | some init =>
    match ← callInit call owner init v args with
    | .none => return v
    | other => Run.fail (.initReturned ((← Run.heap).typeName other))

/-- Calls a class. A metaclass with `__call__` decides everything; else `__new__` makes the object
and `__init__` initializes it. -/
def instantiate (call : Value → CallArgs → Run RuntimeError Value) (t : TypeRef)
    (args : CallArgs) : Run RuntimeError Value := do
  let h ← Run.heap
  match (h.typeAt t).metaclass.bind fun m => h.lookup m Slot.call.attr with
  | some f => call f (args.withReceiver (.type t))
  | none =>
    match h.lookup t Slot.new.attr with
    | none => Run.fail (.notInstantiable (h.typeAt t).name)
    | some new =>
      let v ← callNew call t new args
      initObject call t v args

/-- Calls a value, with at most `depth` constructions nested before a body is entered. -/
def callWithin (e : Engine) : (depth : Nat) → Value → CallArgs → Run RuntimeError Value
  | depth, v, args =>
    match v.callee, depth with
    | .function f, _ => e.callFunction f args
    | .builtin b, _ => e.callBuiltin b args
    | .type t, depth + 1 => instantiate (e.callWithin depth) t args
    | .type _, 0 => throw .exhausted
    | other, _ => do Run.fail (.notCallable ((← Run.heap).typeName other))

def call (e : Engine) (callee : Value) (args : CallArgs) : Run RuntimeError Value :=
  e.callWithin e.depth callee args

/-- Calls a value with arguments as they were written. -/
def callWritten (e : Engine) (s : Signature) (callee : Value) (args : List Value) :
    Run RuntimeError Value := do
  let laid ← Run.ofExcept (s.layOut (← Run.heap).typeName args)
  e.call callee laid

end Engine

end InlineCache
