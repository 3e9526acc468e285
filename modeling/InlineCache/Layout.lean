import InlineCache.Value

/-! # Native layouts

A layout is the storage that instances of a type have, with the native constructors that can make
them. A constructor is chosen by the kinds of its parameters.
-/

namespace InlineCache

/-- The number that tells layouts apart. -/
structure LayoutId where
  raw : UInt32
deriving DecidableEq, Inhabited

namespace LayoutId

/-- The first number of a layout that was added. -/
def firstAdded : UInt32 := 64

/-- Plain instances of `object` and its ordinary subclasses. -/
def object : LayoutId := ⟨8⟩

/-- The fixed layout of a value that is no instance. -/
def ofData : Value → LayoutId
  | .none => ⟨0⟩
  | .bool _ => ⟨1⟩
  | .int _ => ⟨2⟩
  | .float _ => ⟨3⟩
  | .str _ => ⟨4⟩
  | .tuple _ _ => ⟨5⟩
  | .type _ => ⟨6⟩
  | .function _ | .staticMethod _ _ | .classMethod _ _ | .builtin _ => ⟨7⟩
  | .object _ => object

/-- Whether the layout was there from the start. -/
def isBuiltin (l : LayoutId) : Bool := l.raw < firstAdded

end LayoutId

/-- What a parameter of a native constructor takes. -/
inductive NativeParam where
  | type
  | int
  | str
  | any
deriving DecidableEq

def NativeParam.accepts : NativeParam → Value → Bool
  | .type, .type _ => true
  | .int, .int _ => true
  | .str, .str _ => true
  | .any, _ => true
  | _, _ => false

/-- What a native constructor does. -/
inductive NativeBody where
  /-- Makes an empty instance of the type it is given. -/
  | plain
  /-- Runs code of its own. -/
  | custom
deriving DecidableEq

structure NativeCtor where
  params : List NativeParam
  body : NativeBody
deriving DecidableEq

/-- The constructor that makes an empty instance of a type. -/
def NativeCtor.plain : NativeCtor := ⟨[.type], .plain⟩

/-- Whether the constructor takes the type and nothing else. -/
def NativeCtor.isTypeAllocator (c : NativeCtor) : Bool := c.params == [.type]

/-- Each value fits the parameter at its place. -/
def acceptsAll : List NativeParam → List Value → Bool
  | [], [] => true
  | p :: ps, v :: vs => p.accepts v && acceptsAll ps vs
  | _, _ => false

def NativeCtor.accepts (c : NativeCtor) (args : List Value) : Bool := acceptsAll c.params args

/-- The storage of instances. -/
structure Layout where
  id : LayoutId
  name : String
  ctors : List NativeCtor
deriving DecidableEq, Inhabited

namespace Layout

/-- Whether the one and only constructor takes just the type. -/
def hasSoleAllocator (l : Layout) : Bool :=
  match l.ctors with
  | [c] => c.isTypeAllocator
  | _ => false

/-- The first constructor that fits the arguments, with its place. -/
def choose? (l : Layout) (args : List Value) : Option (Nat × NativeCtor) :=
  (l.ctors.zipIdx.find? fun p => p.1.accepts args).map fun p => (p.2, p.1)

def plainObject : Layout := ⟨.object, "object", [.plain]⟩

end Layout

end InlineCache
