import ShardQuery.Execution.Expression
import ShardQuery.Execution.Session
/-!
# Flows

The rows between two stages. A flow is at hand, or it is still in its source
together with what is to be done to each row when it is taken: a row may be dropped,
changed, or turned into an error, and once a window has let enough rows through
nothing more is taken from the source.
-/

namespace ShardQuery

/-- What is done to each row of a source as it passes. -/
inductive Adapter where
  | filter (query : Expression) (outputs : List Expression)
  /-- Drops `skip` rows, whatever they are, and then lets `take` rows pass. -/
  | window (skip : Nat) (take : Option Nat) (outputs : List Expression)

namespace Adapter

/-- The outputs of a row if the query holds for it. A null does not hold. -/
def select (query : Expression) (outputs : List Expression) (row : Row) :
    Except EngineError (Option Row) := do
  match ← query.evaluate row with
  | .boolean true => return some (← Expression.project outputs row)
  | .boolean false | .null => return none
  | other => throw (.execution s!"filter query must be boolean, got {other.dataType}")

def isSpent : Adapter → Bool
  | window _ (some 0) _ => true
  | _ => false

/-- A cancelled run has only this error in the place of rows. -/
def unlessCancelled (cancelled : Bool) (item : Item) : Item :=
  if cancelled then .error .cancelled else item

/-- What becomes of an item, if it passes, and the adapter afterwards. -/
def pass (cancelled : Bool) (item : Item) : Adapter → Option Item × Adapter
  | filter query outputs =>
    let kept := unlessCancelled cancelled item >>= select query outputs
    let passed := match kept with
      | .ok (some row) => some (.ok row)
      | .ok none => none
      | .error error => some (.error error)
    (passed, filter query outputs)
  | window (skip + 1) take outputs => (none, window skip take outputs)
  | window 0 take outputs =>
    (some (unlessCancelled cancelled item >>= Expression.project outputs),
      window 0 (take.map (· - 1)) outputs)

def passAll (cancelled : Bool) (item : Item) : List Adapter → Option Item × List Adapter
  | [] => (some item, [])
  | adapter :: rest =>
    match adapter.pass cancelled item with
    | (none, adapter) => (none, adapter :: rest)
    | (some item, adapter) =>
      let (passed, rest) := passAll cancelled item rest
      (passed, adapter :: rest)

end Adapter

inductive Flow where
  | materialized (rows : List Row)
  | streamed (items : List Item) (adapters : List Adapter)

namespace Flow

def ofBucket : Bucket → Flow
  | .materialized rows => materialized rows
  | .streamed items => streamed items []

def isStreamed : Flow → Bool
  | materialized _ => false
  | streamed .. => true

def size? : Flow → Option Nat
  | materialized rows => some rows.length
  | streamed .. => none

variable {α : Type} (step : α → Item → Run α)

/-- Folds rows at hand. Comes to the last state, and to the error that ended the work, if one
did. -/
def foldRows (state : α) : List Row → StateM Session (α × Option EngineError)
  | [] => return (state, none)
  | row :: rest => do
    match ← (step state (.ok row)).run with
    | .ok state => foldRows state rest
    | .error error => return (state, some error)

/-- Folds what passes the adapters. The source is not touched again once a window is full or the
work has failed. -/
def foldSource (state : α) (adapters : List Adapter) :
    List Item → StateM Session (α × Option EngineError)
  | [] => return (state, none)
  | item :: rest => do
    if adapters.any Adapter.isSpent then return (state, none)
    else
      modify Session.pull
      match Adapter.passAll (← get).cancelled item adapters with
      | (none, adapters) => foldSource state adapters rest
      | (some item, adapters) =>
        match ← (step state item).run with
        | .ok state => foldSource state adapters rest
        | .error error => return (state, some error)

def fold (state : α) : Flow → StateM Session (α × Option EngineError)
  | materialized rows => foldRows step state rows
  | streamed items adapters => foldSource step state adapters items

def drain (flow : Flow) : StateM Session (List Row × Option EngineError) := do
  let (rows, error) ← flow.fold (fun rows item => return (← Work.ofExcept item) :: rows) []
  return (rows.reverse, error)

def rows (flow : Flow) : Run (List Row) := do
  match ← (drain flow : StateM Session _) with
  | (rows, none) => return rows
  | (_, some error) => throw error

/-- Folds the rows with a check before each one whether the run was cancelled. -/
def consume {α : Type} (work : α → Row → Run α) (start : α) (flow : Flow) : Run α := do
  let checked (state : α) (item : Item) : Run α := do
    Run.checkCancelled
    work state (← Work.ofExcept item)
  match ← (flow.fold checked start : StateM Session _) with
  | (state, none) => return state
  | (_, some error) => throw error

def adapt (adapter : Adapter) : List Item → List Adapter → Flow :=
  fun items adapters => streamed items (adapters ++ [adapter])

end Flow

end ShardQuery
