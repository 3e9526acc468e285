import InlineCache.Error
import InlineCache.Value

/-! # Call signatures

A signature says how each argument of a call was written: plain, by name, or as a starred tuple. It
lays raw arguments out as positionals and keywords. `withReceiver` is the same call with one plain
argument in front.
-/

namespace InlineCache

/-- How one argument was written. -/
inductive ArgKind where
  | plain
  | named (name : String)
  /-- A tuple whose items become positionals. -/
  | star
deriving DecidableEq

/-- The arguments of a general call. -/
structure CallArgs where
  positional : List Value := []
  keywords : List (String × Value) := []
deriving DecidableEq, Inhabited

namespace CallArgs

def size (a : CallArgs) : Nat := a.positional.length + a.keywords.length

def withReceiver (a : CallArgs) (receiver : Value) : CallArgs :=
  { a with positional := receiver :: a.positional }

/-- Leaves the first positional out. -/
def withoutReceiver (a : CallArgs) : CallArgs := { a with positional := a.positional.drop 1 }

end CallArgs

/-- How the arguments of a call were written, in order. -/
structure Signature where
  kinds : List ArgKind
deriving DecidableEq, Inhabited

namespace Signature

/-- A call with `n` plain arguments. -/
def plain (n : Nat) : Signature := ⟨List.replicate n .plain⟩

/-- The first fault of a list of kinds; `seen` holds the names met before it. -/
def fault? (seen : List String) : List ArgKind → Option SignatureFault
  | [] => none
  | .plain :: rest => fault? seen rest
  | .named name :: rest =>
    if name ∈ seen then some (.repeatedKeyword name) else fault? (name :: seen) rest
  | .star :: rest => if rest.isEmpty then none else some .starNotLast

/-- A signature, unless a star is not last or a name is given twice. -/
def ofKinds (kinds : List ArgKind) : Except SignatureFault Signature :=
  match fault? [] kinds with
  | some e => .error e
  | none => .ok ⟨kinds⟩

/-- How many values a call passes. -/
def arity (s : Signature) : Nat := s.kinds.length

def isPlain (s : Signature) : Bool := s.kinds.all (· == .plain)

def hasStar (s : Signature) : Bool := s.kinds.getLast? == some .star

/-- The same call with one plain argument in front. -/
def withReceiver (s : Signature) : Signature := ⟨.plain :: s.kinds⟩

/-- Lays raw arguments out, one kind at a time; `typeName` words the complaint about a star. -/
def layOutKinds (typeName : Value → String) :
    List ArgKind → List Value → Except RuntimeError CallArgs
  | .plain :: kinds, v :: vs => do
    let rest ← layOutKinds typeName kinds vs
    pure { rest with positional := v :: rest.positional }
  | .named name :: kinds, v :: vs => do
    let rest ← layOutKinds typeName kinds vs
    pure { rest with keywords := (name, v) :: rest.keywords }
  | .star :: kinds, v :: vs =>
    match v with
    | .tuple _ items => do
      let rest ← layOutKinds typeName kinds vs
      pure { rest with positional := items ++ rest.positional }
    | other => .error (.type (.starNotIterable (typeName other)))
  | _, _ => .ok {}

/-- Lays raw arguments out as positionals and keywords. -/
def layOut (s : Signature) (typeName : Value → String) (args : List Value) :
    Except RuntimeError CallArgs :=
  layOutKinds typeName s.kinds args

/-- How one argument is shown. -/
def kindText : ArgKind → String
  | .plain => "_"
  | .named name => s!"{name}=_"
  | .star => "*_"

def text (s : Signature) : String := "(" ++ ", ".intercalate (s.kinds.map kindText) ++ ")"

end Signature

/-- What the code around a call site fixes about the call. -/
structure SiteShape where
  signature : Signature
  /-- Whether the callee is known to be a type before the call. -/
  typed : Bool := false
deriving DecidableEq, Inhabited

/-- The call of a method with its receiver first. -/
def SiteShape.withReceiver (s : SiteShape) : SiteShape := { signature := s.signature.withReceiver }

end InlineCache
