import ShardQuery.Config
import ShardQuery.Execution.Chain
import ShardQuery.Job.Plan
import ShardQuery.Job.Request
import ShardQuery.Job.Transport
import ShardQuery.Telemetry
/-!
# Nodes

A node runs the shard chain over each of its shards and the node chain over all that
comes out, and sends the rows on in requests of bounded size. If a chain fails it
sends a report of the failure instead. Every shard is worked on, also after one has
failed; the failure of the first of them counts.
-/

namespace ShardQuery

structure Node where
  id : String
  factory : Factory
  /-- Positive in every valid configuration. Requests without rows would be sent for ever. -/
  rowsPerRequest : Nat

structure NodeState where
  outbox : Outbox
  telemetry : Telemetry
  sink : Sink

abbrev NodeRun (α : Type) := Work NodeState α

namespace Node

def runChain (chain : Chain) (level : Granularity) (cancelled : Bool) (input : Bucket) :
    NodeRun (List Row) := do
  let state ← get
  let (result, sink) := chain.execute level cancelled input state.sink
  set { state with sink }
  Work.ofExcept result

def runShards (chain : Chain) (cancelled : Bool) :
    List Bucket → NodeRun (List (Except EngineError (List Row)))
  | [] => return []
  | shard :: rest => do
    let result ← (runChain chain .shard cancelled shard).attempt
    return result :: (← runShards chain cancelled rest)

def collect (node : Node) (phase : CollectPhase) (cancelled : Bool) (shards : List Bucket) :
    NodeRun (List Row) := do
  let results ←
    if shards.isEmpty then pure []
    else
      let chain ← Work.ofExcept (Chain.build node.factory phase.shardProjections)
      runShards chain cancelled shards
  let rows ← Work.ofExcept (results.mapM fun result => result)
  let chain ← Work.ofExcept (Chain.build node.factory phase.nodeProjections)
  runChain chain .node cancelled (Bucket.concat (rows.map .materialized))

/-- Rows in pieces of at most `size`, which is positive; no rows are one empty piece. There are no
pieces of size zero, and what this gives for them stands for nothing that a node sends. -/
def pieces (size : Nat) (rows : List Row) : List (List Row) :=
  if rows.length ≤ size ∨ size = 0 then [rows]
  else rows.take size :: pieces size (rows.drop size)
termination_by rows.length
decreasing_by simp only [List.length_drop]; omega

def send (phase : CollectPhase) (request : Request) : NodeRun Unit := do
  let payload ← Work.ofExcept (request.encode phase.outputTypes)
  let state ← get
  let outbox ← Work.ofExcept (state.outbox.send phase.mergeNode payload)
  set { state with outbox, telemetry := state.telemetry.increment .requestsSent }

def sendPieces (phase : CollectPhase) (producer : UInt32) (sequence : Nat) :
    List (List Row) → NodeRun Unit
  | [] => return ()
  | piece :: rest => do
    send phase
      ⟨phase.job, producer, UInt64.ofNat sequence, rest.isEmpty, .rows (.materialized piece)⟩
    sendPieces phase producer (sequence + 1) rest

def sendRows (node : Node) (phase : CollectPhase) (producer : UInt32) (rows : List Row) :
    NodeRun Unit :=
  sendPieces phase producer 0 (pieces node.rowsPerRequest rows)

def note (node : Node) (phase : CollectPhase) (event : Event) (field value : String) :
    NodeRun Unit :=
  let fields := [("job_id", phase.job.toText), ("node", node.id), (field, value)]
  modify fun state => { state with telemetry := state.telemetry.note event fields }

/-- Does the work of the node. Comes to the number of rows that were sent. -/
def execute (node : Node) (phase : CollectPhase) (producer : UInt32) (cancelled : Bool)
    (shards : List Bucket) : NodeRun Nat := do
  node.note phase .collectStart "shards" (toString shards.length)
  match ← (node.collect phase cancelled shards).attempt with
  | .ok rows =>
    node.sendRows phase producer rows
    node.note phase .collectComplete "rows" (toString rows.length)
    return rows.length
  | .error error =>
    node.note phase .collectFailed "reason" error.message
    send phase (.ofFailure phase.job producer error.message)
    throw error

end Node

end ShardQuery
