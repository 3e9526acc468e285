import InlineCache.Heap.Basic
import InlineCache.Signature

/-! # Binding arguments to parameters

Positionals fill the parameters from the left, keywords fill those they name. Faults are found in
this order: too many positionals, then the first bad keyword, then the parameters left empty.
-/

namespace InlineCache.FunctionRecord

/-- The place of the first parameter with a name. -/
def paramIndex? (f : FunctionRecord) (name : String) : Option Nat := f.params.idxOf? name

/-- How many slots the body gets. -/
def slotCount (f : FunctionRecord) : Nat := f.params.length + if f.variadic then 1 else 0

/-- The slots after the positionals are filled in. -/
def positionalSlots (f : FunctionRecord) (positional : List Value) : List (Option Value) :=
  (List.range f.params.length).map fun i => positional[i]?

/-- Fills the slot that a keyword names. -/
def fillKeyword (f : FunctionRecord) (slots : List (Option Value)) (k : String × Value) :
    Except ArgumentFault (List (Option Value)) :=
  match f.paramIndex? k.1 with
  | none => .error (.unexpectedKeyword k.1)
  | some i =>
    match slots[i]? with
    | some (some _) => .error (.multipleValues k.1)
    | _ => .ok (slots.set i (some k.2))

/-- The names of parameters whose slot is empty. -/
def missing (f : FunctionRecord) (slots : List (Option Value)) : List String :=
  ((f.params.zip slots).filter fun p => p.2.isNone).map Prod.fst

/-- One value for each parameter. -/
def fillSlots (f : FunctionRecord) (args : CallArgs) : Except ArgumentFault (List Value) := do
  if f.params.length < args.positional.length && !f.variadic then
    throw (.tooMany f.params.length args.positional.length)
  let slots ← args.keywords.foldlM f.fillKeyword (f.positionalSlots args.positional)
  match f.missing slots with
  | [] => pure (slots.filterMap id)
  | names => throw (.missing names)

/-- The slots that the body gets. `box` is the identity of the tuple of further positionals. -/
def bind (f : FunctionRecord) (args : CallArgs) (box : Nat) : Except RuntimeError (List Value) :=
  match f.fillSlots args with
  | .error e => .error (.argument f.name e)
  | .ok values =>
    if f.variadic then .ok (values ++ [.tuple box (args.positional.drop f.params.length)])
    else .ok values

end InlineCache.FunctionRecord
