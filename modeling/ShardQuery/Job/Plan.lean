import ShardQuery.Projection.Wire
/-!
# Plans

A plan splits a query into three chains: for each shard, for each node over its
shards, and for the merge of all nodes. The first two go to the nodes as one phase,
the third stays with the node that merges.
-/

namespace ShardQuery

open Wire

structure CollectPhase where
  job : JobId
  shardProjections : List Projection
  nodeProjections : List Projection
  /-- The types of the columns that are sent on. -/
  outputTypes : List DataType
  mergeNode : String
deriving Inhabited

namespace CollectPhase

def write (phase : CollectPhase) : Output :=
  .of (Wire.job phase.job) ++ Projection.encodeAll phase.shardProjections ++
    Projection.encodeAll phase.nodeProjections ++
    .of (Wire.list DataType.write phase.outputTypes ++ text phase.mergeNode)

def read : Reader CollectPhase := do
  let job ← Reader.job
  let shardProjections ← Projection.readAll
  let nodeProjections ← Projection.readAll
  let outputTypes ← Reader.list DataType.read
  return ⟨job, shardProjections, nodeProjections, outputTypes, ← Reader.text⟩

end CollectPhase

structure MergePhase where
  job : JobId
  inputTypes : List DataType
  projections : List Projection
  /-- How many nodes send rows. -/
  producers : UInt64
deriving Inhabited

namespace MergePhase

def validate (phase : MergePhase) : Except EngineError Unit :=
  if phase.producers = 0 then
    .error (.invalidPlan s!"merge phase of job {phase.job} expects no producers")
  else .ok ()

def outputTypes (phase : MergePhase) : List DataType :=
  Projection.chainTypes phase.inputTypes phase.projections

def write (phase : MergePhase) : Output :=
  .of (Wire.job phase.job ++ Wire.list DataType.write phase.inputTypes) ++
    Projection.encodeAll phase.projections ++ .of (vlong phase.producers)

def read : Reader MergePhase := do
  let job ← Reader.job
  let inputTypes ← Reader.list DataType.read
  let projections ← Projection.readAll
  return ⟨job, inputTypes, projections, ← Reader.vlong⟩

end MergePhase

structure ExecutionPlan where
  inputTypes : List DataType
  shardProjections : List Projection
  nodeProjections : List Projection
  mergeProjections : List Projection
deriving Inhabited

namespace ExecutionPlan

/-- The types of the columns between the nodes and the merge. -/
def intermediateTypes (plan : ExecutionPlan) : List DataType :=
  Projection.chainTypes (Projection.chainTypes plan.inputTypes plan.shardProjections)
    plan.nodeProjections

def collectPhase (plan : ExecutionPlan) (job : JobId) (mergeNode : String) : CollectPhase where
  job
  shardProjections := plan.shardProjections
  nodeProjections := plan.nodeProjections
  outputTypes := plan.intermediateTypes
  mergeNode

def mergePhase (plan : ExecutionPlan) (job : JobId) (producers : UInt64) : MergePhase where
  job
  inputTypes := plan.intermediateTypes
  projections := plan.mergeProjections
  producers

end ExecutionPlan

end ShardQuery
