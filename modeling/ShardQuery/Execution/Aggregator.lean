import ShardQuery.Execution.Expression
import ShardQuery.Projection.Basic
/-!
# Aggregators

An aggregate call that is ready to run: it folds rows, or the states in a column,
into a state, and turns the state into a value.
-/

namespace ShardQuery

structure Aggregator where
  function : AggregateFunction
  inputs : List Expression
  fromStep : AggregateStep
  toStep : AggregateStep

namespace Aggregator

def initial (a : Aggregator) : PartialState := a.function.initial

/-- Takes a row into a state. A null in a column of states counts for no rows. Rows are taken in by
a task of its own, so what halts it is reported here. -/
def accumulate (a : Aggregator) (state : PartialState) (row : Row) :
    Except EngineError PartialState :=
  if a.fromStep = .rows then do
    Halt.reported (a.function.iterate state (← Expression.project a.inputs row))
  else match a.inputs with
    | [] => .error (.invalidPlan "partial aggregation without a state input")
    | input :: _ => do
      match ← input.evaluate row with
      | .state incoming => Halt.reported (a.function.merge state incoming)
      | .null => return state
      | other =>
        let found := s!"got a {other.dataType} value"
        throw (.merge s!"{a.function.info.name} expected a partial state, {found}")

def emit (a : Aggregator) (state : PartialState) : Except EngineError Value :=
  if a.toStep = .states then .ok (.state state) else a.function.finalize state

def accumulateAll : List Aggregator → List PartialState → Row →
    Except EngineError (List PartialState)
  | a :: rest, state :: states, row => do
    let state ← a.accumulate state row
    return state :: (← accumulateAll rest states row)
  | _, _, _ => .ok []

def emitAll : List Aggregator → List PartialState → Except EngineError (List Value)
  | a :: rest, state :: states => do
    let value ← a.emit state
    return value :: (← emitAll rest states)
  | _, _ => .ok []

end Aggregator

end ShardQuery
