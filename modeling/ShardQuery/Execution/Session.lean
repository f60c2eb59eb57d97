import ShardQuery.Bucket
import ShardQuery.Work
/-!
# Sessions

What the stages of a chain share while they run: a flag by which others cancel the
run, the count of rows taken from the source, and the sink for written rows.
-/

namespace ShardQuery

/-- Where written rows go. It refuses rows beyond its capacity, if it has one. -/
structure Sink where
  rows : List Row
  capacity : Option Nat
  /-- The error of a row that is refused. -/
  refusal : EngineError
deriving Inhabited

namespace Sink

def empty : Sink := ⟨[], none, .execution "sink is full"⟩

def put (sink : Sink) (row : Row) : Except EngineError Sink :=
  match sink.capacity with
  | some capacity =>
    if sink.rows.length < capacity then .ok { sink with rows := sink.rows ++ [row] }
    else .error sink.refusal
  | none => .ok { sink with rows := sink.rows ++ [row] }

end Sink

structure Session where
  cancelled : Bool
  pulled : Nat
  /-- The row of the source that raises the flag when it is taken, the first being row one. -/
  cancelAt : Option Nat
  sink : Sink
deriving Inhabited

namespace Session

def start (cancelled : Bool) (sink : Sink) : Session := ⟨cancelled, 0, none, sink⟩

def pull (session : Session) : Session :=
  let pulled := session.pulled + 1
  { session with
    pulled
    cancelled := session.cancelled || session.cancelAt == some pulled }

end Session

abbrev Run (α : Type) := Work Session α

namespace Run

def checkCancelled : Run Unit := do
  if (← get).cancelled then throw .cancelled

def put (row : Row) : Run Unit := do
  let session ← get
  set { session with sink := ← Work.ofExcept (session.sink.put row) }

end Run

end ShardQuery
