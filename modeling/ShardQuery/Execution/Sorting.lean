import ShardQuery.Execution.Flow
import ShardQuery.Value.Order
/-!
# Sorting rows

Keys are evaluated once per row and compared in order. The place of nulls does not
turn round with the direction. Rows whose keys are equal, or have no order, keep
their places.
-/

namespace ShardQuery

structure Sorter where
  expression : Expression
  descending : Bool
  nullsFirst : Bool

namespace Sorter

/-- The order of two values of this key; values without an order count as equal. -/
def compare (key : Sorter) (a b : Value) : Ordering :=
  match a.isNull, b.isNull with
  | true, true => .eq
  | true, false => if key.nullsFirst then .lt else .gt
  | false, true => if key.nullsFirst then .gt else .lt
  | false, false =>
    let order := (a.compare? b).getD .eq
    if key.descending then order.swap else order

def compareAll : List Sorter → List Value → List Value → Ordering
  | key :: keys, a :: rest, b :: others => (key.compare a b).then (compareAll keys rest others)
  | _, _, _ => .eq

/-- Puts an item into a list that is sorted from the last to the first, before the items that do
not come after it. -/
def place {α : Type} (isBefore : α → α → Bool) (item : α) : List α → List α
  | [] => [item]
  | last :: rest =>
    if isBefore item last then last :: place isBefore item rest else item :: last :: rest

/-- Sorts by placing one item after the other, so the result is stable. -/
def sort {α : Type} (isBefore : α → α → Bool) (items : List α) : List α :=
  (items.foldl (fun sorted item => place isBefore item sorted) []).reverse

def decorate (keys : List Sorter) : List Row → Run (List (List Value × Row))
  | [] => return []
  | row :: rest => do
    Run.checkCancelled
    let values ← Work.ofExcept (keys.mapM fun key => key.expression.evaluate row)
    return (values, row) :: (← decorate keys rest)

def sortRows (keys : List Sorter) (rows : List Row) : Run (List Row) := do
  let decorated ← decorate keys rows
  return (sort (fun a b => compareAll keys a.1 b.1 == .lt) decorated).map (·.2)

end Sorter

end ShardQuery
