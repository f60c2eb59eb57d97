import ShardQuery.Cell
import ShardQuery.CommandLine.Arguments
import ShardQuery.CommandLine.Fault
import ShardQuery.CommandLine.Files
import ShardQuery.Job.Cluster
import ShardQuery.Job.Document
/-!
# Commands

Running a plan over input files, and explaining a plan. Commands can be carried out
wherever their files come from.
-/

namespace ShardQuery

/-- The shards of a node, as rows of cells. -/
abbrev NodeInput := List (List (List Json))

namespace NodeInput

def fieldNames : List String := ["shards"]

/-- Members of other names are passed over. -/
def outline : Json.Outline := .record fieldNames

def ofDocument? (json : Json) : Option NodeInput := do
  let fields ← Json.fields? fieldNames false json
  fields.required "shards" (Json.list? (Json.list? (Json.list? some)))

def listOfDocument? : Json → Option (List NodeInput) := Json.list? ofDocument?

def buckets (types : List DataType) (index : Nat) (input : NodeInput) :
    Except Fault (List Bucket) :=
  let shards := input.mapM fun rows => rows.mapM (Cell.readRow Timestamp.rfc3339 types)
  match shards with
  | .ok shards => .ok (shards.map .materialized)
  | .error reason => .error ⟨.input, s!"node {index}: {reason}"⟩

end NodeInput

structure Report where
  result : Except Fault Json
  journal : Journal

namespace ExecutionPlan

def explainChain (name : String) (projections : List Projection) : Except Fault Json :=
  match Chain.build .standard projections with
  | .ok _ => .ok (.array (projections.map fun projection => .text projection.display))
  | .error error => .error ⟨.plan, s!"{name} chain: {error.describe}"⟩

def explain (plan : ExecutionPlan) : Except Fault Json := do
  let shard ← explainChain "shard" plan.shardProjections
  let node ← explainChain "node" plan.nodeProjections
  let merge ← explainChain "merge" plan.mergeProjections
  let types := plan.intermediateTypes.map fun type => Json.text type.name
  return .object [("shard", shard), ("node", node), ("merge", merge),
    ("intermediate_types", .array types)]

/-- The counters that answers show. -/
def shownCounters : List Counter :=
  [.requestsSent, .requestsReceived, .rowsReceived, .resultsDeferred, .jobsCompleted,
    .jobsFailed]

/-- Runs the plan over the inputs of nodes, as the job of that id. -/
def execute (plan : ExecutionPlan) (config : Config) (job : JobId) (journal : Journal)
    (inputs : List NodeInput) : Report :=
  let started : Except Fault (List (List Bucket) × Cluster) := do
    let nodes ← inputs.zipIdx.mapM fun (input, index) =>
      NodeInput.buckets plan.inputTypes index input
    let cluster ← (Cluster.create config .standard journal.minimum .empty).mapError Fault.ofEngine
    return (nodes, cluster)
  match started with
  | .error fault => ⟨.error fault, journal⟩
  | .ok (nodes, cluster) =>
    let (outcome, cluster) := cluster.run job plan nodes
    let journal := { journal with latest := cluster.journal.latest ++ journal.latest }
    match outcome with
    | .error error => ⟨.error (.ofEngine error), journal⟩
    | .ok rows =>
      let counts := shownCounters.map fun (counter : Counter) =>
        (counter.name, Json.ofNat (cluster.metrics.get counter).toNat)
      let data := Json.object [("rows", Cell.ofRows Timestamp.rfc3339 rows),
        ("written", Cell.ofRows Timestamp.rfc3339 cluster.written), ("metrics", .object counts)]
      ⟨.ok data, journal⟩

end ExecutionPlan

namespace Command

/-- The wanted parts of the document of a file, decoded. -/
def load {α : Type} (kind : FaultKind) (outline : Json.Outline) (decode : Json → Option α)
    (files : Files) (path : String) : Except Fault α :=
  match files path with
  | .error fault => .error ⟨kind, s!"Failed to read {path}: {fault.message}"⟩
  | .ok text =>
    match outline.parse text with
    | .error fault => .error ⟨kind, s!"JSON error: {fault.message}"⟩
    | .ok json =>
      match decode json with
      | some value => .ok value
      | none =>
        let fault := Json.Fault.at text "unexpected content" []
        .error ⟨kind, s!"JSON error: {fault.message}"⟩

def loadConfig (files : Files) : Option String → Except EngineError Config
  | none => .ok .default
  | some path =>
    match files path with
    | .error fault => .error (.config s!"cannot read {path}: {fault.message}")
    | .ok text => Config.ofText text

def loadPlan (files : Files) (path : String) : Except Fault ExecutionPlan :=
  load .plan ExecutionPlan.outline ExecutionPlan.ofDocument? files path

def loadInputs (files : Files) (path : String) : Except Fault (List NodeInput) :=
  load .input (.list NodeInput.outline) NodeInput.listOfDocument? files path

def runPlan (files : Files) (job : JobId) (journal : Journal) (configPath : Option String)
    (planPath inputPath : String) : Report :=
  let configured := do
    let config ← loadConfig files configPath
    return (config, ← config.severity)
  match configured with
  | .error error => ⟨.error (.ofEngine error), journal⟩
  | .ok (config, minimum) =>
    let source := configPath.getD "defaults"
    let journal := { journal with minimum }.add .configLoaded [("source", source)]
    let loaded := do
      let plan ← loadPlan files planPath
      return (plan, ← loadInputs files inputPath)
    match loaded with
    | .error fault => ⟨.error fault, journal⟩
    | .ok (plan, inputs) => plan.execute config job journal inputs

def explainPlan (files : Files) (journal : Journal) (path : String) : Report :=
  match loadPlan files path >>= ExecutionPlan.explain with
  | .error fault => ⟨.error fault, journal⟩
  | .ok data => ⟨.ok data, journal.add .explainComplete [("plan", path)]⟩

/-- Carries out the command. A plan runs as the job of that id. -/
def perform (files : Files) (job : JobId) (journal : Journal) : Command → Report
  | run config plan input => runPlan files job journal config plan input
  | explain plan => explainPlan files journal plan

end Command

def Report.response (data : Json) : String :=
  (Json.object [("status", .text "ok"), ("data", data)]).canonical.render

end ShardQuery
