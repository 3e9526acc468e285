import InlineCache.Settings

/-! # Errors

Each error is a cause with the data it speaks about; `message` is its one wording.
-/

namespace InlineCache

/-- What can be wrong with a signature. -/
inductive SignatureFault where
  | starNotLast
  | repeatedKeyword (name : String)
deriving DecidableEq

def SignatureFault.message : SignatureFault → String
  | .starNotLast => "list argument must be the last argument"
  | .repeatedKeyword name => s!"keyword argument repeated: {name}"

/-- Failures of the calling machinery itself. -/
inductive BindError where
  | unsupportedArity (arity limit : Nat)
  | invalidSettings (fault : SettingsFault)
  | invalidSignature (fault : SignatureFault)
  | argumentCount (expected got : Nat)
deriving DecidableEq

def BindError.message : BindError → String
  | .unsupportedArity arity limit =>
    s!"no specialized call target for {arity} arguments (supported up to {limit})"
  | .invalidSettings fault => s!"invalid fast-binding configuration: {fault.message}"
  | .invalidSignature fault => s!"invalid call signature: {fault.message}"
  | .argumentCount expected got => s!"call site expects {expected} arguments, got {got}"

/-- Why arguments do not fit the parameters of a function. -/
inductive ArgumentFault where
  | tooMany (declared given : Nat)
  | unexpectedKeyword (name : String)
  | multipleValues (name : String)
  | missing (names : List String)
  /-- Raised by a body in its own words. -/
  | other (text : String)
deriving DecidableEq

/-- The wording of a fault, without the function's name. -/
def ArgumentFault.message : ArgumentFault → String
  | .tooMany declared given =>
    let s := if declared = 1 then "" else "s"
    let was := if given = 1 then "was" else "were"
    s!"takes {declared} positional argument{s} but {given} {was} given"
  | .unexpectedKeyword name => s!"got an unexpected keyword argument '{name}'"
  | .multipleValues name => s!"got multiple values for argument '{name}'"
  | .missing names =>
    let s := if names.length = 1 then "" else "s"
    let list := " and ".intercalate (names.map fun name => s!"'{name}'")
    s!"missing {names.length} required positional argument{s}: {list}"
  | .other text => text

/-- The causes of a plain type error. -/
inductive TypeFault where
  /-- The starred argument is no tuple. -/
  | starNotIterable (typeName : String)
  /-- `object.__new__` was called without a type in front. -/
  | newWithoutType
  /-- Arguments for `object.__new__` although the class has another `__new__`. -/
  | newTakesOneArgument
  /-- `object.__init__` was called without a receiver. -/
  | initWithoutReceiver
  /-- Arguments for `object.__init__` although the class has another `__init__`. -/
  | initTakesOneArgument
  /-- Arguments for a class that overrides neither slot. -/
  | takesNoArguments (className : String)
  /-- A plain allocator was called with something other than one type. -/
  | allocatorNeedsType
  | expectedInstance
  | expectedType
  | expectedInt
  | noSuchArgument
  | unknownName (name : String)
  | recursionLimit
  /-- A call inside a body failed to bind. -/
  | binding (error : BindError)
  /-- Raised by a body in its own words. -/
  | other (text : String)
deriving DecidableEq

def TypeFault.message : TypeFault → String
  | .starNotIterable typeName => s!"argument after * must be an iterable, not {typeName}"
  | .newWithoutType => "object.__new__(X): X is not a type object"
  | .newTakesOneArgument => "object.__new__() takes exactly one argument (the type to instantiate)"
  | .initWithoutReceiver => "descriptor '__init__' of 'object' object needs an argument"
  | .initTakesOneArgument =>
    "object.__init__() takes exactly one argument (the instance to initialize)"
  | .takesNoArguments className => s!"{className}() takes no arguments"
  | .allocatorNeedsType => "native allocator expects a type argument"
  | .expectedInstance => "expected instance"
  | .expectedType => "expected type"
  | .expectedInt => "expected int"
  | .noSuchArgument => "no such argument"
  | .unknownName name => s!"unknown name {name}"
  | .recursionLimit => "recursion limit"
  | .binding error => error.message
  | .other text => text

/-- Errors that a running program can observe. -/
inductive RuntimeError where
  | type (fault : TypeFault)
  | argument (callable : String) (fault : ArgumentFault)
  | notCallable (typeName : String)
  | initReturned (typeName : String)
  | notInstantiable (typeName : String)
  | noAttribute (typeName name : String)
  | metaclassConflict
  | duplicateBase (name : String)
  | inconsistentBases (names : List String)
deriving DecidableEq

def RuntimeError.message : RuntimeError → String
  | .type fault => s!"TypeError: {fault.message}"
  | .argument callable fault => s!"TypeError: {callable}() {fault.message}"
  | .notCallable typeName => s!"TypeError: '{typeName}' object is not callable"
  | .initReturned typeName => s!"TypeError: __init__() should return None, not '{typeName}'"
  | .notInstantiable typeName => s!"TypeError: cannot create '{typeName}' instances"
  | .noAttribute typeName name =>
    s!"AttributeError: '{typeName}' object has no attribute '{name}'"
  | .metaclassConflict =>
    "TypeError: metaclass conflict: the metaclass of a derived class must be a " ++
      "(non-strict) subclass of the metaclasses of all its bases"
  | .duplicateBase name => s!"TypeError: duplicate base class {name}"
  | .inconsistentBases names =>
    let list := ", ".intercalate names
    s!"TypeError: Cannot create a consistent method resolution order (MRO) for bases {list}"

/-- What a call site can fail with. -/
inductive CallError where
  | runtime (error : RuntimeError)
  | bind (error : BindError)
deriving DecidableEq

def CallError.message : CallError → String
  | .runtime error => error.message
  | .bind error => error.message

end InlineCache
