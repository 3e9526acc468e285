/-! # Linearizations

`merge` folds several orders into one that keeps each of them. Its next item is the first head that
no order still holds further back. When every head is held back by some order, there is no such
merge.
-/

namespace InlineCache.Linearization

variable {α : Type} [DecidableEq α]

/-- The first item that also stands before it in the list. -/
def firstRepeat (seen : List α) : List α → Option α
  | [] => none
  | x :: rest => if x ∈ seen then some x else firstRepeat (x :: seen) rest

/-- No order holds `x` behind its head. -/
def free (orders : List (List α)) (x : α) : Bool := orders.all fun o => !o.tail.contains x

/-- The first free head. -/
def nextHead? (orders : List (List α)) : Option α :=
  (orders.filterMap List.head?).find? (free orders)

/-- Takes `x` off the front of an order. -/
def dropHead (x : α) (order : List α) : List α :=
  if order.head? = some x then order.tail else order

/-- One order that keeps all `orders`, in at most `n` steps. -/
def mergeIn : (n : Nat) → (orders : List (List α)) → Option (List α)
  | n, orders =>
    let live := orders.filter (!·.isEmpty)
    if live.isEmpty then some []
    else match n, nextHead? live with
      | n + 1, some x => (mergeIn n (live.map (dropHead x))).map (x :: ·)
      | _, _ => none

/-- One order that keeps all `orders`. Each step takes an item off, so their size bounds them. -/
def merge (orders : List (List α)) : Option (List α) := mergeIn orders.flatten.length orders

/-- Why bases have no linearization. -/
inductive Fault (α : Type) where
  | duplicate (base : α)
  | inconsistent

/-- The ancestors of a class with these bases, nearest first. `ancestors` gives those of a base. -/
def ofBases (ancestors : α → List α) (bases : List α) : Except (Fault α) (List α) :=
  match firstRepeat [] bases with
  | some b => .error (.duplicate b)
  | none =>
    match merge (bases.map (fun b => b :: ancestors b) ++ [bases]) with
    | some order => .ok order
    | none => .error .inconsistent

end InlineCache.Linearization
