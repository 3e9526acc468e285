import InlineCache.Caches.Race
import InlineCache.Script

/-! # Sessions

A session is a world with named things and scripts. Commands define things, look at them and call
them. A command that fails binds no name. What a name held before is let go only when the command
is over.
-/

namespace InlineCache

/-- A running system with the names that its user gave. -/
structure Session where
  world : World := .initial
  names : Names := .initial
  scripts : Scripts := {}
  /-- Counters that stand on their own. -/
  counters : Table String Counters := ∅

/-- Why a command gave no answer. -/
inductive Trouble where
  | call (e : CallError)
  | exhausted
  /-- Nothing of that kind has this name. -/
  | unknown (kind name : String)
  /-- The layout has no constructor that can be called directly. -/
  | noAllocator (layout : String)

/-- A command with an answer. -/
abbrev Command := EStateM Trouble Session

namespace Session

/-- The program that runs at this point. -/
def program (s : Session) : Program := ⟨s.names, s.scripts⟩

/-! ## Running -/

/-- Runs something in the world. -/
def perform {α : Type} (x : Engine → Run CallError α) : Command α := fun s =>
  match x s.program.engine s.world with
  | .ok a w => .ok a { s with world := w }
  | .error (.error e) w => .error (.call e) { s with world := w }
  | .error .exhausted w => .error .exhausted { s with world := w }

/-- Runs something that fails only as a program does. -/
def performPlain {α : Type} (x : Engine → Run RuntimeError α) : Command α :=
  perform fun e => Run.mapError .runtime (x e)

/-- Runs something whose error is part of the answer. -/
def attempt {α : Type} (x : Engine → Run CallError α) :
    Command (Except CallError α) := fun s =>
  match x s.program.engine s.world with
  | .ok a w => .ok (.ok a) { s with world := w }
  | .error (.error e) w => .ok (.error e) { s with world := w }
  | .error .exhausted w => .error .exhausted { s with world := w }

def fail {α : Type} (e : CallError) : Command α := throw (.call e)

/-- Goes on with a result of binding. -/
def ofBind {α : Type} (x : Except BindError α) : Command α :=
  match x with
  | .ok a => pure a
  | .error e => fail (.bind e)

def heap : Command Heap := (·.world.heap) <$> get

def caches : Command Caches := (·.world.caches) <$> get

def onHeap {α : Type} (f : Heap → α × Heap) : Command α :=
  modifyGet fun s =>
    let (a, h) := f s.world.heap
    (a, { s with world := { s.world with heap := h } })

def modifyHeap (f : Heap → Heap) : Command Unit := onHeap fun h => ((), f h)

def onCaches {α : Type} (f : Caches → α × Caches) : Command α :=
  modifyGet fun s =>
    let (a, c) := f s.world.caches
    (a, { s with world := { s.world with caches := c } })

/-- The value of an expression outside of all bodies. -/
def eval (e : Expr) : Command Value := do
  let names := (← get).names
  perform fun engine => Scope.eval { engine, names } e

/-- The values of expressions, from left to right. -/
def evalAll (es : List Expr) : Command (List Value) := es.mapM eval

/-- The arguments of a general call. -/
def evalArgs (args : List Expr) (keywords : List (String × Expr)) : Command CallArgs := do
  let positional ← evalAll args
  let keywords ← keywords.mapM fun k => do return (k.1, ← eval k.2)
  return { positional, keywords }

/-- Takes the trace out. -/
def takeTrace : Command (List Entry) :=
  modifyGet fun s => (s.world.trace.toList, { s with world := { s.world with trace := #[] } })

/-! ## Names -/

def find {α : Type} (kind : String) (table : Names → Table String α) (name : String) :
    Command α := do
  match (table (← get).names).get? name with
  | some a => pure a
  | none => throw (.unknown kind name)

def valueNamed : String → Command Value := find "value" (·.values)

def layoutNamed : String → Command LayoutRef := find "layout" (·.layouts)

def contextNamed : String → Command Context := find "context" (·.contexts)

def siteNamed : String → Command CallSiteRef := find "site" (·.sites)

def relayNamed : String → Command RelayRef := find "relay" (·.relays)

def shortcutNamed : String → Command ShortcutRef := find "shortcut" (·.shortcuts)

def typeNamed (name : String) : Command TypeRef := do
  match ← valueNamed name with
  | .type t => pure t
  | _ => throw (.unknown "type" name)

def functionNamed (name : String) : Command FunctionRef := do
  match ← valueNamed name with
  | .function f => pure f
  | _ => throw (.unknown "function" name)

def objectNamed (name : String) : Command InstanceRef := do
  match ← valueNamed name with
  | .object i => pure i
  | _ => throw (.unknown "instance" name)

/-- Changes the names, and what they keep alive. -/
def modifyNames (f : Names → Names) : Command Unit := modify fun s =>
  let names := f s.names
  { s with
    names
    world := { s.world with caches := { s.world.caches with held := names.held } } }

def nameValue (name : String) (v : Value) : Command Unit :=
  modifyNames fun n => { n with values := n.values.insert name v }

def nameShortcut (name : String) (k : ShortcutRef) : Command Unit :=
  modifyNames fun n => { n with shortcuts := n.shortcuts.insert name k }

/-- Counts in counters that stand on their own, new ones if there are none of that name. -/
def record (name : String) (counts : List Counter) : Command Counters := do
  let n := counts.foldl Counters.record (((← get).counters.get? name).getD {})
  modify fun s => { s with counters := s.counters.insert name n }
  return n

/-- Forgets a name. Tells whether there was a shortcut, relay, call site or context. -/
def drop (name : String) : Command (List Bool) := do
  let n := (← get).names
  modifyNames fun n => { n with
    shortcuts := n.shortcuts.erase name
    relays := n.relays.erase name
    sites := n.sites.erase name
    contexts := n.contexts.erase name }
  return [n.shortcuts.contains name, n.relays.contains name, n.sites.contains name,
    n.contexts.contains name]

/-! ## Definitions -/

/-- Where a context takes its specializer from. -/
inductive SpecializerSource where
  | own (settings : Except SettingsFault Settings)
  | sharedWith (context : String)
  | shared

/-- A specializer with settings that are checked first. -/
def newSpecializer (settings : Except SettingsFault Settings) : Command SpecializerRef := do
  match settings with
  | .error fault => fail (.bind (.invalidSettings fault))
  | .ok settings =>
    if valid : settings.Valid then onCaches (·.addSpecializer (.fresh settings valid))
    else fail (.bind (.invalidSettings (.capTooLarge settings.maxArity)))

def addContext (name module : String) (source : SpecializerSource) : Command Context := do
  let specializer ← match source with
    | .own settings => newSpecializer settings
    | .sharedWith other => (·.specializer) <$> contextNamed other
    | .shared => pure .shared
  let context : Context := { module, specializer }
  modifyNames fun n => { n with contexts := n.contexts.insert name context }
  return context

/-- Defines a layout. Without constructors it gets the plain one. -/
def addLayout (name label : String) (ctors : Option (List (List NativeParam × Script))) :
    Command LayoutRef := do
  let made := match ctors with
    | none => [NativeCtor.plain]
    | some l => l.map fun c => ⟨c.1, .custom⟩
  let l ← onHeap (·.addLayout label made)
  let scripts := (ctors.getD [([.type], [])]).map Prod.snd
  modify fun s => { s with scripts := { s.scripts with ctors := s.scripts.ctors.push scripts } }
  modifyNames fun n => { n with layouts := n.layouts.insert name l }
  return l

def addFunction (name : String) (f : FunctionRecord) (body : Script) : Command FunctionRef := do
  let r ← onHeap (·.addFunction f)
  modify fun s =>
    { s with scripts := { s.scripts with functions := s.scripts.functions.push body } }
  nameValue name (.function r)
  return r

def addBuiltin (name label : String) (body : Script) : Command Value := do
  let r ← onHeap (·.addBuiltin label)
  modify fun s => { s with scripts := { s.scripts with builtins := s.scripts.builtins.push body } }
  nameValue name (.builtin r)
  return .builtin r

def addType (name : String) (c : ClassSpec) : Command TypeRef := do
  match (← heap).define c with
  | .error e => fail (.runtime e)
  | .ok (t, h) =>
    modifyHeap fun _ => h
    nameValue name (.type t)
    return t

def addSite (name : String) (shape : SiteShape) : Command CallSiteRef := do
  let s ← onCaches (·.addSite shape)
  modifyNames fun n => { n with sites := n.sites.insert name s }
  return s

/-- Defines a relay. -/
def addRelay (name : String) (callable : Value) (shape : SiteShape) : Command RelayRef := do
  let r ← onCaches (·.addRelay { callable, shape })
  modifyNames fun n => { n with relays := n.relays.insert name r }
  return r

/-- Direct allocation through a layout. -/
def nativeAllocation (layout : String) : Command Allocation := do
  match Specializer.directAllocator (← heap) (← layoutNamed layout) with
  | some l => pure (.native l)
  | none => throw (.noAllocator layout)

/-- Defines a shortcut for the current version of a type. -/
def addShortcut (name : String) (t : TypeRef) (arity : Arity) (allocate : Allocation)
    (initializer : Option RelayRef) : Command ShortcutRef := do
  let version := ((← heap).typeAt t).version
  let k ← onCaches (·.addShortcut { version, arity, allocate, initializer })
  nameShortcut name k
  return k

/-! ## Calls -/

/-- Asks a context for a shortcut. -/
def request (ctx : Context) (shape : SiteShape) (t : TypeRef) :
    Command (Except Refusal ShortcutRef) := do
  let h ← heap
  match Caches.request h ctx.specializer shape t (← caches) with
  | .ok r c => onCaches fun _ => (r, c)
  | .error e c => do
    onCaches fun _ => ((), c)
    fail (.bind e)

/-- So many equal requests at once. -/
def race (ctx : Context) (shape : SiteShape) (t : TypeRef) (n : Nat) :
    Command (List (Except Refusal ShortcutRef)) := do
  let h ← heap
  let answers ← onCaches fun c => c.race h ctx.specializer shape t n
  answers.mapM ofBind

def invoke (ctx : Context) (site : CallSiteRef) (callee : Value) (args : List Value) :
    Command Value :=
  perform fun e => e.invoke ctx.specializer site callee args

/-- Makes a call site look for a new target, and completes the call. -/
def update (ctx : Context) (site : CallSiteRef) (callee : Value) (args : List Value) :
    Command Value :=
  perform fun e => e.update (e.callRelay ctx.specializer) ctx.specializer site callee args

def call (callee : Value) (args : CallArgs) : Command Value := performPlain (·.call callee args)

/-- Calls the general way with arguments as they were written. -/
def callWritten (s : Signature) (callee : Value) (args : List Value) : Command Value :=
  performPlain (·.callWritten s callee args)

/-- Runs a shortcut, if it is good for the call. -/
def tryShortcut (ctx : Context) (k : ShortcutRef) (callee : Value) (args : List Value) :
    Command (Option Value) :=
  perform fun e => e.tryShortcut (e.callRelay ctx.specializer) ctx.specializer k callee args

/-- Runs a shortcut on behalf of a call site. -/
def executeShortcut (ctx : Context) (k : ShortcutRef) (site : CallSiteRef) (callee : Value)
    (args : List Value) : Command Value :=
  perform fun e =>
    e.executeShortcut (e.callRelay ctx.specializer) ctx.specializer k site callee args

/-- Calls through a relay; its error is part of the answer. -/
def callRelay (ctx : Context) (r : RelayRef) (receiver : Value) (args : List Value) :
    Command (Except CallError Value) :=
  attempt fun e => e.callRelay ctx.specializer r receiver args

/-- Calls a function with the plan for a signature; its error is part of the answer. -/
def callPlanned (f : FunctionRef) (s : Signature) (args : List Value) :
    Command (Option (List Nat) × Except CallError Value) := do
  let plan := Plan.make? ((← heap).functionAt f) s
  let result ← attempt fun e => Run.mapError .runtime (e.callPlanned f plan s args)
  return (plan, result)

/-- The slots that a function's body would get. -/
def bind (f : FunctionRef) (args : CallArgs) : Command (List Value) := do
  let h ← heap
  match (h.functionAt f).bind args h.boxes with
  | .error e => fail (.runtime e)
  | .ok slots =>
    if (h.functionAt f).variadic then modifyHeap fun h => h.addBox.2
    return slots

/-- Allocates an instance through the constructors of a layout, if one fits. -/
def allocateIn (l : LayoutRef) (t : TypeRef) : Command (Option Value) :=
  performPlain (·.allocateIn l t)

/-- Allocates an instance through the one constructor of a layout, if that can be called
directly. -/
def allocateDirectly (l : LayoutRef) (t : TypeRef) : Command (Option Value) := do
  match Specializer.directAllocator (← heap) l with
  | none => return none
  | some l =>
    perform fun e => some <$> e.runAllocation (e.callRelay .shared) (.native l) t []

def construct (l : LayoutRef) (i : Nat) (c : NativeCtor) (args : List Value) : Command Value :=
  performPlain (·.construct l i c args)

end Session

end InlineCache
