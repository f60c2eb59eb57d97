import ShardQuery.Job.Plan
import ShardQuery.Json.Outline
import ShardQuery.Projection.Document
/-!
# Plans in documents

A chain that is left out is empty.
-/

namespace ShardQuery

open Json

def JobId.ofDocument? (json : Json) : Option JobId := json.text?.bind ofText?

namespace Json.Fields

def types? (fields : Fields) (name : String) : Option (List DataType) :=
  fields.required name (list? (DataType.ofDocument? false))

def projections? (fields : Fields) (name : String) : Option (List Projection) :=
  fields.optional name (list? Projection.ofDocument?) []

end Json.Fields

def CollectPhase.ofDocument? (json : Json) : Option CollectPhase := do
  let fields ← fields?
    ["job_id", "shard_projections", "node_projections", "output_types", "merge_node"] false json
  let job ← fields.required "job_id" JobId.ofDocument?
  let shardProjections ← fields.projections? "shard_projections"
  let nodeProjections ← fields.projections? "node_projections"
  let outputTypes ← fields.types? "output_types"
  return ⟨job, shardProjections, nodeProjections, outputTypes,
    ← fields.required "merge_node" text?⟩

def MergePhase.ofDocument? (json : Json) : Option MergePhase := do
  let fields ← fields? ["job_id", "input_types", "projections", "producers"] false json
  let job ← fields.required "job_id" JobId.ofDocument?
  let inputTypes ← fields.types? "input_types"
  let projections ← fields.projections? "projections"
  return ⟨job, inputTypes, projections, ← fields.required "producers" uint64?⟩

namespace ExecutionPlan

def fieldNames : List String :=
  ["input_types", "shard_projections", "node_projections", "merge_projections"]

/-- Members of other names are passed over. -/
def outline : Outline := .record fieldNames

def ofDocument? (json : Json) : Option ExecutionPlan := do
  let fields ← fields? fieldNames false json
  let inputTypes ← fields.types? "input_types"
  let shardProjections ← fields.projections? "shard_projections"
  let nodeProjections ← fields.projections? "node_projections"
  return ⟨inputTypes, shardProjections, nodeProjections,
    ← fields.projections? "merge_projections"⟩

def ofText? (text : String) : Option ExecutionPlan :=
  (outline.parse text).toOption.bind ofDocument?

def toDocument (plan : ExecutionPlan) : Json :=
  let chain (projections : List Projection) := Json.array (projections.map Projection.toDocument)
  .object [("input_types", .array (plan.inputTypes.map DataType.toDocument)),
    ("shard_projections", chain plan.shardProjections),
    ("node_projections", chain plan.nodeProjections),
    ("merge_projections", chain plan.mergeProjections)]

end ExecutionPlan

end ShardQuery
