import ShardQuery.Execution.Aggregator
import ShardQuery.Execution.Sorting
/-!
# Stages

A projection whose symbols have been resolved. Filters and windows leave a streamed
flow in its source; all other stages take every row before the next stage starts.
A stage refuses to run below its level and does not start in a cancelled run.
-/

namespace ShardQuery

inductive Action where
  | filter (query : Expression) (outputs : List Expression)
  | aggregation (aggregators : List Aggregator)
  | group (keys : List Expression) (aggregators : List Aggregator)
  | topN (outputs : List Expression) (keys : List Sorter) (limit : Option Nat) (offset : Nat)
  | order (outputs : List Expression) (keys : List Sorter)
  | write (inputs : List Expression)

/-- A group of rows: their keys, and the states of the aggregators. -/
abbrev Group := Row × List PartialState

namespace Action

def kind : Action → ProjectionKind
  | filter .. => .filter
  | aggregation _ => .aggregation
  | group .. => .group
  | topN .. => .topN
  | order .. => .order
  | write _ => .write

/-- Takes a row into its group; a group starts with the first row that has its keys. -/
def addToGroups (aggregators : List Aggregator) (key row : Row) :
    List Group → Except EngineError (List Group)
  | [] => do
    let states ← Aggregator.accumulateAll aggregators (aggregators.map Aggregator.initial) row
    return [(key, states)]
  | (other, states) :: rest => do
    if key.same other then
      return (other, ← Aggregator.accumulateAll aggregators states row) :: rest
    else return (other, states) :: (← addToGroups aggregators key row rest)

def window (outputs : List Expression) (limit : Option Nat) (offset : Nat) (rows : List Row) :
    Except EngineError (List Row) :=
  let rest := rows.drop offset
  (limit.elim rest rest.take).mapM (Expression.project outputs)

def apply (action : Action) (input : Flow) : Run Flow :=
  match action, input with
  | filter query outputs, .streamed items adapters =>
    return Flow.adapt (.filter query outputs) items adapters
  | filter query outputs, input => do
    let kept ← input.consume (fun kept row => do
      match ← Work.ofExcept (Adapter.select query outputs row) with
      | some row => return row :: kept
      | none => return kept) []
    return .materialized kept.reverse
  | topN outputs [] limit offset, .streamed items adapters =>
    return Flow.adapt (.window offset limit outputs) items adapters
  | topN outputs keys limit offset, input => do
    let rows ← input.rows
    let rows ← if keys.isEmpty then pure rows else Sorter.sortRows keys rows
    return .materialized (← Work.ofExcept (window outputs limit offset rows))
  | order outputs keys, input => do
    let rows ← Sorter.sortRows keys (← input.rows)
    return .materialized (← Work.ofExcept (rows.mapM (Expression.project outputs)))
  | aggregation aggregators, input => do
    let states ← input.consume
      (fun states row => Work.ofExcept (Aggregator.accumulateAll aggregators states row))
      (aggregators.map Aggregator.initial)
    return .materialized [← Work.ofExcept (Aggregator.emitAll aggregators states)]
  | group keys aggregators, input => do
    let groups ← input.consume (fun groups row => Work.ofExcept do
      addToGroups aggregators (← Expression.project keys row) row groups) []
    let rows ← Work.ofExcept (groups.mapM fun (key, states) => do
      return key ++ (← Aggregator.emitAll aggregators states))
    return .materialized rows
  | write inputs, input => do
    let written ← input.consume (fun written row => do
      Run.put (← Work.ofExcept (Expression.project inputs row))
      return written + 1) (0 : Nat)
    return .materialized [[.long (Int64.ofNat written)]]

end Action

structure Stage where
  /-- The finest level that the stage may run at. -/
  granularity : Granularity
  action : Action

namespace Stage

def execute (stage : Stage) (level : Granularity) (input : Flow) : Run Flow := do
  if level.id < stage.granularity.id then
    throw (.granularityViolation stage.action.kind stage.granularity level)
  Run.checkCancelled
  stage.action.apply input

end Stage

end ShardQuery
