import InlineCache.Caches.Basic
import InlineCache.Heap.Mutation

/-! # Running code

A run changes a world: the heap, the caches, and the trace of bodies entered. It ends with a value,
with an error, or because its bound on nested dispatch was used up, which is kept apart from both.
What a body does is not known here: whoever runs code brings a `Runner`.
-/

namespace InlineCache

/-- A body entered, with what it gets: a function its slots, a built-in function all arguments of the
call as they are, and a constructor values. -/
inductive Entry where
  | function (f : FunctionRef) (slots : List Value)
  | builtin (index : Nat) (args : CallArgs)
  | ctor (layout : LayoutRef) (index : Nat) (args : List Value)
deriving DecidableEq

structure World where
  heap : Heap
  caches : Caches
  /-- The bodies entered so far, in order. -/
  trace : Array Entry

/-- The world before anything has run. -/
def World.initial : World where
  heap := .initial
  caches := .initial
  trace := #[]

instance : Inhabited World := ⟨.initial⟩

/-- Why a run ended without a value. -/
inductive Stop (ε : Type) where
  | error (e : ε)
  /-- The bound on nested dispatch was used up. -/
  | exhausted
deriving DecidableEq

/-- A run that gives an `α` or fails with an `ε`. -/
abbrev Run (ε α : Type) := EStateM (Stop ε) World α

/-- What bodies do. -/
abbrev Runner := Entry → Run RuntimeError Value

/-- What calls need to know: what bodies do, and how deep dispatch may nest between bodies. -/
structure Engine where
  run : Runner
  depth : Nat

namespace Run

variable {ε α : Type}

def fail (e : ε) : Run ε α := throw (.error e)

/-- Fails with a result's error, or goes on with its value. -/
def ofExcept (x : Except ε α) : Run ε α :=
  match x with
  | .ok a => pure a
  | .error e => fail e

def heap : Run ε Heap := World.heap <$> get

def caches : Run ε Caches := World.caches <$> get

def onHeap (f : Heap → α × Heap) : Run ε α :=
  modifyGet fun w => let (a, h) := f w.heap; (a, { w with heap := h })

def onCaches (f : Caches → α × Caches) : Run ε α :=
  modifyGet fun w => let (a, c) := f w.caches; (a, { w with caches := c })

def modifyCaches (f : Caches → Caches) : Run ε Unit :=
  modify fun w => { w with caches := f w.caches }

def modifyHeap (f : Heap → Heap) : Run ε Unit := modify fun w => { w with heap := f w.heap }

def count (s : SpecializerRef) (n : Counter) : Run ε Unit := modifyCaches (·.count s n)

/-- Rewords the errors of a run. -/
def mapError {δ : Type} (f : ε → δ) (x : Run ε α) : Run δ α := fun w =>
  match x w with
  | .ok a w => .ok a w
  | .error (.error e) w => .error (.error (f e)) w
  | .error .exhausted w => .error .exhausted w

/-- Runs `x` and then changes the world, however `x` ended. -/
def always (x : Run ε α) (f : World → World) : Run ε α := fun w =>
  match x w with
  | .ok a w => .ok a (f w)
  | .error e w => .error e (f w)

/-- Runs `x` while a shortcut is kept alive. -/
def holding (k : ShortcutRef) (x : Run ε α) : Run ε α := do
  modifyCaches (·.hold k)
  always x fun w => { w with caches := w.caches.release }

end Run

def Engine.enter (e : Engine) (E : Entry) : Run RuntimeError Value := do
  modify fun w => { w with trace := w.trace.push E }
  e.run E

end InlineCache
