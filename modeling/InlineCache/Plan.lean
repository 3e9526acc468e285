import InlineCache.Parameters

/-! # Argument plans

A plan says, for each parameter of a function, which argument of a call site fills it. It exists
when the signature alone decides that, whatever the arguments are.
-/

namespace InlineCache.Plan

/-- The slots after the kinds are placed; argument `i` comes next, and `next` is the place of the
next plain one. -/
def place (f : FunctionRecord) :
    (i next : Nat) → List ArgKind → List (Option Nat) → Option (List (Option Nat))
  | _, _, [], slots => some slots
  | i, next, .plain :: kinds, slots => fill i next slots (place f (i + 1) (next + 1) kinds)
  | i, next, .named name :: kinds, slots =>
    match f.paramIndex? name with
    | none => none
    | some p => fill i p slots (place f (i + 1) next kinds)
  | _, _, .star :: _, _ => none
where
  /-- Goes on with argument `i` in slot `p`, unless the slot is taken. -/
  fill (i p : Nat) (slots : List (Option Nat))
      (rest : List (Option Nat) → Option (List (Option Nat))) : Option (List (Option Nat)) :=
    match slots[p]? with
    | some (some _) => none
    | _ => rest (slots.set p (some i))

/-- The plan for calling `f` with the arguments of a signature. -/
def make? (f : FunctionRecord) (s : Signature) : Option (List Nat) :=
  if f.variadic || s.hasStar || s.arity ≠ f.params.length then none
  else if s.isPlain then some (List.range s.arity)
  else (place f 0 0 s.kinds (List.replicate s.arity none)).bind fun slots => slots.mapM id

/-- The values that a plan picks from the arguments. -/
def pick (plan : List Nat) (args : List Value) : List Value :=
  plan.map fun i => args.getD i .none

end InlineCache.Plan
