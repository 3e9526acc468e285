import InlineCache.CallSite
import InlineCache.Heap.Definition

/-! # Scripts

Bodies are written as scripts: statements over expressions that make values, read and change
objects, and call. Names are looked up when they are met. At most `bodyLimit` bodies can be active
at once; one more fails as soon as it is entered.
-/

namespace InlineCache

inductive Expr where
  | literal (v : Value)
  | tuple (items : List Expr)
  | name (n : String)
  | staticMethod (e : Expr)
  | classMethod (e : Expr)
  /-- A new instance with the named layout, or with that of its type. -/
  | instance_ (type : Expr) (layout : Option String)
  /-- A new instance, made by a constructor of the type's layout. -/
  | allocate (type : Expr)
  | typeOf (e : Expr)
  | attribute (e : Expr) (name : String)
  | minus (a b : Expr)
  /-- An argument of the body. -/
  | argument (i : Nat)
  | call (context : String) (callee : Expr) (args : List Expr) (keywords : List (String × Expr))
  | invoke (context site : String) (callee : Expr) (args : List Expr)

inductive Stmt where
  | setAttr (target : Expr) (name : String) (value : Expr)
  | setTypeAttr (target : Expr) (name : String) (value : Expr)
  | deleteTypeAttr (target : Expr) (name : String)
  | perform (e : Expr)
  | return_ (e : Expr)
  | ifPositive (e : Expr) (body : List Stmt)
  | raise (e : RuntimeError)

/-- What one body does. -/
abbrev Script := List Stmt

/-- Code that has a script. -/
inductive Body where
  | function (f : FunctionRef)
  | builtin (index : Nat)
  | ctor (layout : LayoutRef) (index : Nat)
deriving DecidableEq

namespace Entry

/-- The body that is entered. -/
def body : Entry → Body
  | .function f _ => .function f
  | .builtin i _ => .builtin i
  | .ctor l i _ => .ctor l i

/-- What a script sees as its arguments: those given by name come last, without their names. -/
def args : Entry → List Value
  | .function _ slots => slots
  | .builtin _ args => args.positional ++ args.keywords.map Prod.snd
  | .ctor _ _ args => args

end Entry

/-- Calls are made on behalf of a module, with its specializer. -/
structure Context where
  module : String
  specializer : SpecializerRef
deriving DecidableEq, Inhabited

/-- Everything that has a name. -/
structure Names where
  values : Table String Value := ∅
  layouts : Table String LayoutRef := ∅
  contexts : Table String Context := ∅
  sites : Table String CallSiteRef := ∅
  relays : Table String RelayRef := ∅
  shortcuts : Table String ShortcutRef := ∅

/-- The names that are there from the start. -/
def Names.initial : Names where
  values := .ofList [("object", .type .object), ("object_new", .builtin .objectNew),
    ("object_init", .builtin .objectInit)]
  layouts := .ofList [("object", .object)]

/-- What named things keep alive. -/
def Names.held (n : Names) : Held where
  sites := n.sites.values
  shortcuts := n.shortcuts.values
  relays := n.relays.values

/-- All scripts, by the body they belong to. -/
structure Scripts where
  functions : Array Script := #[]
  builtins : Array Script := #[]
  ctors : Array (List Script) := #[[]]
deriving Inhabited

def Scripts.of (s : Scripts) : Body → Script
  | .function f => s.functions.getD f.index []
  | .builtin i => s.builtins.getD i []
  | .ctor l i => (s.ctors.getD l.index []).getD i []

/-- What an expression can see. -/
structure Scope where
  engine : Engine
  names : Names
  args : List Value := []

namespace Scope

/-- Fails with a type error. -/
def refuse {α : Type} (fault : TypeFault) : Run CallError α := Run.fail (.runtime (.type fault))

/-- Finds a name, or fails. -/
def find {α : Type} (table : Table String α) (name : String) : Run CallError α :=
  match table.get? name with
  | some a => pure a
  | none => refuse (.unknownName name)

def newTuple (items : List Value) : Run CallError Value :=
  (.tuple · items) <$> Run.onHeap Heap.addBox

def typeIn (v : Value) : Run CallError TypeRef :=
  match v with
  | .type t => pure t
  | _ => refuse .expectedType

def objectIn (v : Value) : Run CallError InstanceRef :=
  match v with
  | .object i => pure i
  | _ => refuse .expectedInstance

mutual

def eval (s : Scope) : Expr → Run CallError Value
  | .literal v => pure v
  | .tuple items => do newTuple (← s.evalAll items)
  | .name n => find s.names.values n
  | .staticMethod e => do
    let v ← s.eval e
    (.staticMethod · v) <$> Run.onHeap Heap.addBox
  | .classMethod e => do
    let v ← s.eval e
    (.classMethod · v) <$> Run.onHeap Heap.addBox
  | .instance_ type layout => do
    let t ← typeIn (← s.eval type)
    let l ← match layout with
      | some name => find s.names.layouts name
      | none => pure ((← Run.heap).typeAt t).layout
    let id := ((← Run.heap).layoutAt l).id
    .object <$> Run.onHeap (·.addObject t id)
  | .allocate type => do
    let t ← typeIn (← s.eval type)
    Run.mapError .runtime (s.engine.allocate t)
  | .typeOf e => do
    let i ← objectIn (← s.eval e)
    return .type ((← Run.heap).objectAt i).type
  | .attribute e name => do
    let v ← s.eval e
    let i ← objectIn v
    match (← Run.heap).objectAttr i name with
    | some a => return a
    | none => Run.fail (.runtime (.noAttribute ((← Run.heap).typeName v) name))
  | .minus a b => do
    let x ← s.eval a
    let y ← s.eval b
    match x, y with
    | .int i, .int j => return .int (i - j)
    | _, _ => refuse .expectedInt
  | .argument i =>
    match s.args[i]? with
    | some v => pure v
    | none => refuse .noSuchArgument
  | .call _ callee args keywords => do
    let f ← s.eval callee
    let positional ← s.evalAll args
    let keywords ← s.evalKeywords keywords
    Run.mapError .runtime (s.engine.call f { positional, keywords })
  | .invoke context site callee args => do
    let ctx ← find s.names.contexts context
    let site ← find s.names.sites site
    let f ← s.eval callee
    let args ← s.evalAll args
    s.engine.invoke ctx.specializer site f args

/-- The values of expressions, from left to right. -/
def evalAll (s : Scope) : List Expr → Run CallError (List Value)
  | [] => pure []
  | e :: rest => do
    let v ← s.eval e
    let vs ← s.evalAll rest
    return v :: vs

/-- The values of keyword arguments, from left to right. -/
def evalKeywords (s : Scope) : List (String × Expr) → Run CallError (List (String × Value))
  | [] => pure []
  | (name, e) :: rest => do
    let v ← s.eval e
    let vs ← s.evalKeywords rest
    return (name, v) :: vs

end

mutual

/-- Executes a statement; a value ends the body with it. -/
def execOne (s : Scope) : Stmt → Run CallError (Option Value)
  | .setAttr target name value => do
    let i ← objectIn (← s.eval target)
    let v ← s.eval value
    Run.modifyHeap (·.setObjectAttr i name v)
    return none
  | .setTypeAttr target name value => do
    let t ← typeIn (← s.eval target)
    let v ← s.eval value
    Run.modifyHeap (·.setAttr t name v)
    return none
  | .deleteTypeAttr target name => do
    let t ← typeIn (← s.eval target)
    Run.modifyHeap fun h => (h.deleteAttr t name).2
    return none
  | .perform e => do
    let _ ← s.eval e
    return none
  | .return_ e => do
    let v ← s.eval e
    return some v
  | .ifPositive e body => do
    match ← s.eval e with
    | .int i => if 0 < i then s.exec body else return none
    | _ => return none
  | .raise e => Run.fail (.runtime e)

/-- Executes statements in order, until one ends the body. -/
def exec (s : Scope) : List Stmt → Run CallError (Option Value)
  | [] => pure none
  | stmt :: rest => do
    match ← s.execOne stmt with
    | some v => return some v
    | none => s.exec rest

end

end Scope

/-- A program: named things and the scripts of all bodies. -/
structure Program where
  names : Names
  scripts : Scripts

namespace Program

/-- The most bodies that can be active at once. -/
def bodyLimit : Nat := 40

/-- How deep dispatch may nest between two bodies: deeper than any stack. -/
def dispatchLimit : Nat := 0x100000000

/-- How an error ends a body: a call that did not bind is a type error there. -/
def bodyError : CallError → RuntimeError
  | .runtime e => e
  | .bind e => .type (.binding e)

/-- What bodies do when `left` more of them may become active. -/
def run (p : Program) : (left : Nat) → Runner
  | 0, _ => Run.fail (.type .recursionLimit)
  | left + 1, E => do
    let scope : Scope := ⟨⟨p.run left, dispatchLimit⟩, p.names, E.args⟩
    let value ← Run.mapError bodyError (scope.exec (p.scripts.of E.body))
    return value.getD .none

/-- What calls from outside of all bodies use. -/
def engine (p : Program) : Engine := ⟨p.run bodyLimit, dispatchLimit⟩

end Program

end InlineCache
