import InlineCache.Layout
import InlineCache.Registry

/-! # The heap

The heap holds all objects that can change: types, instances, functions, layouts, and the counters
that new objects draw their identity from. A look-up on a type walks its line: the type itself and
then its ancestors, nearest first.
-/

namespace InlineCache

/-- The tag of one state of one type. -/
abbrev Version := UInt64

/-- How a type takes part in the object model. -/
structure TypeFlags where
  system : Bool := false
  classic : Bool := false
  /-- Classic and modern types meet in the line. -/
  mixed : Bool := false
deriving DecidableEq, Inhabited

/-- A type object. -/
structure TypeRecord where
  id : TypeId
  name : String
  bases : List TypeRef
  /-- All ancestors, nearest first, without the type itself. -/
  ancestors : List TypeRef
  layout : LayoutRef
  flags : TypeFlags
  /-- The class of the type, when it is not the plain one. -/
  metaclass : Option TypeRef
  attrs : Table String Value
  version : Version
  /-- Types that name this one as a base, oldest first. -/
  subtypes : List TypeRef
deriving Inhabited

/-- A function object. What it does when called is not part of the heap. -/
structure FunctionRecord where
  name : String
  params : List String
  /-- Whether more positionals are collected in a last slot. -/
  variadic : Bool
deriving DecidableEq, Inhabited

structure ObjectRecord where
  type : TypeRef
  layout : LayoutId
  attrs : Table String Value
deriving Inhabited

/-- All objects. -/
structure Heap where
  types : Array TypeRecord
  functions : Array FunctionRecord
  /-- The names of added built-in functions. -/
  builtins : Array String
  layouts : Array Layout
  objects : Array ObjectRecord
  /-- How many tuples and method wrappers were made. -/
  boxes : Nat
  /-- How many version tags were drawn. -/
  versions : Nat
  registry : Registry
deriving Inhabited

/-- The root of all types. -/
def TypeRef.object : TypeRef := ⟨0⟩

def LayoutRef.object : LayoutRef := ⟨0⟩

/-- The tag drawn after `n` others. Tags are 64-bit words. -/
def versionTag (n : Nat) : Version := UInt64.ofNat (n + 1)

/-- The state of `object` at the start. -/
def TypeRecord.root : TypeRecord where
  id := .object
  name := "object"
  bases := []
  ancestors := []
  layout := .object
  flags := { system := true }
  metaclass := none
  attrs := Table.ofList [("__new__", .builtin .objectNew), ("__init__", .builtin .objectInit)]
  version := versionTag 0
  subtypes := []

namespace Heap

/-- The heap in which only `object` is defined. -/
def initial : Heap where
  types := #[.root]
  functions := #[]
  builtins := #[]
  layouts := #[.plainObject]
  objects := #[]
  boxes := 0
  versions := 1
  registry := ({} : Registry).register .object .object

/-! ## Reading -/

def typeAt (h : Heap) (t : TypeRef) : TypeRecord := h.types.getD t.index default

def functionAt (h : Heap) (f : FunctionRef) : FunctionRecord := h.functions.getD f.index default

def layoutAt (h : Heap) (l : LayoutRef) : Layout := h.layouts.getD l.index default

def objectAt (h : Heap) (i : InstanceRef) : ObjectRecord := h.objects.getD i.index default

def builtinName (h : Heap) : BuiltinRef → String
  | .objectNew => "__new__"
  | .objectInit => "__init__"
  | .added n => h.builtins.getD n ""

/-- The layout of a type's instances. -/
def layoutOf (h : Heap) (t : TypeRef) : Layout := h.layoutAt (h.typeAt t).layout

/-- A type and its ancestors, in the order look-ups walk them. -/
def line (h : Heap) (t : TypeRef) : List TypeRef := t :: (h.typeAt t).ancestors

/-- `t` is `u` or derives from it. -/
def isSubtype (h : Heap) (t u : TypeRef) : Bool := (h.line t).contains u

/-- The attribute that the type itself defines. -/
def ownAttr (h : Heap) (t : TypeRef) (name : String) : Option Value := (h.typeAt t).attrs.get? name

/-- The attribute of the first type in line that defines it. -/
def lookup (h : Heap) (t : TypeRef) (name : String) : Option Value :=
  (h.line t).findSome? (h.ownAttr · name)

/-- The name of a value's type, as programs see it. -/
def typeName (h : Heap) : Value → String
  | .none => "NoneType"
  | .bool _ => "bool"
  | .int _ => "int"
  | .float _ => "float"
  | .str _ => "str"
  | .tuple _ _ => "tuple"
  | .type _ => "type"
  | .function _ => "function"
  | .staticMethod _ _ => "staticmethod"
  | .classMethod _ _ => "classmethod"
  | .builtin _ => "builtin_function_or_method"
  | .object i => (h.typeAt (h.objectAt i).type).name

/-- The layout that backs a value. -/
def nativeLayout (h : Heap) : Value → LayoutId
  | .object i => (h.objectAt i).layout
  | v => LayoutId.ofData v

/-- Whether the value is an instance of the type; plain data is one of `object` alone. -/
def isInstance (h : Heap) (v : Value) (t : TypeRef) : Bool :=
  match v with
  | .object i => h.isSubtype (h.objectAt i).type t
  | _ => t == .object

/-! ## Making objects -/

def modifyType (h : Heap) (t : TypeRef) (f : TypeRecord → TypeRecord) : Heap :=
  { h with types := h.types.modify t.index f }

def addLayout (h : Heap) (name : String) (ctors : List NativeCtor) : LayoutRef × Heap :=
  let id : LayoutId := ⟨LayoutId.firstAdded + UInt32.ofNat (h.layouts.size - 1)⟩
  (⟨h.layouts.size⟩, { h with layouts := h.layouts.push ⟨id, name, ctors⟩ })

def addFunction (h : Heap) (f : FunctionRecord) : FunctionRef × Heap :=
  (⟨h.functions.size⟩, { h with functions := h.functions.push f })

def addBuiltin (h : Heap) (name : String) : BuiltinRef × Heap :=
  (.added h.builtins.size, { h with builtins := h.builtins.push name })

/-- A new instance without attributes. -/
def addObject (h : Heap) (t : TypeRef) (l : LayoutId) : InstanceRef × Heap :=
  (⟨h.objects.size⟩, { h with objects := h.objects.push ⟨t, l, ∅⟩ })

/-- The identity of a new tuple or wrapper. -/
def addBox (h : Heap) : Nat × Heap := (h.boxes, { h with boxes := h.boxes + 1 })

/-! ## Attributes of instances -/

def objectAttr (h : Heap) (i : InstanceRef) (name : String) : Option Value :=
  (h.objectAt i).attrs.get? name

def setObjectAttr (h : Heap) (i : InstanceRef) (name : String) (v : Value) : Heap :=
  { h with objects := h.objects.modify i.index fun o => { o with attrs := o.attrs.insert name v } }

end Heap

end InlineCache
