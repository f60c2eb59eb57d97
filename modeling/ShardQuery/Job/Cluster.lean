import ShardQuery.Job.Node
import ShardQuery.Job.Timeline
/-!
# Clusters

Nodes and the manager that merges their rows, all in one place. Each run of a plan is
a job of its own.
-/

namespace ShardQuery

structure Cluster where
  config : Config
  timeline : Timeline

namespace Cluster

def mergeNode : String := "merge"

def create (config : Config) (factory : Factory) (minimum : Severity) (sink : Sink) :
    Except EngineError Cluster := do
  config.validate
  let manager :=
    Manager.start config.contextWaitMillis.toNat config.jobRetentionMillis.toNat minimum sink
  return ⟨config, .start manager factory config.jobTimeoutMillis.toNat⟩

def metrics (cluster : Cluster) : Metrics := cluster.timeline.manager.telemetry.metrics

def journal (cluster : Cluster) : Journal := cluster.timeline.manager.telemetry.journal

def written (cluster : Cluster) : List Row := cluster.timeline.manager.sink.rows

def runNode (phase : CollectPhase) (cluster : Cluster) (index : Nat) (shards : List Bucket) :
    Cluster :=
  let manager := cluster.timeline.manager
  let node : Node :=
    ⟨s!"node-{index}", cluster.timeline.factory, cluster.config.rowsPerRequest.toNat⟩
  let work := node.execute phase (UInt32.ofNat index) false shards
  let (_, state) := work.within ⟨.empty, manager.telemetry, manager.sink⟩
  let tasks := state.outbox.sent.map fun (_, payload) => Task.arrived payload
  let manager := { manager with telemetry := state.telemetry, sink := state.sink }
  let timeline := cluster.timeline
  { cluster with timeline := { timeline with manager, tasks := timeline.tasks ++ tasks } }

def runNodes (phase : CollectPhase) (cluster : Cluster) (nodes : List (List Bucket)) : Cluster :=
  nodes.zipIdx.foldl (fun cluster (shards, index) => cluster.runNode phase index shards) cluster

/-- Runs a plan over the shards of nodes, as the job of that id. -/
def run (job : JobId) (plan : ExecutionPlan) (nodes : List (List Bucket)) (cluster : Cluster) :
    JobOutcome × Cluster :=
  if 0x100000000 ≤ nodes.length then (.error (.invalidPlan "too many producer nodes"), cluster)
  else
    let phase := plan.mergePhase job (UInt64.ofNat nodes.length)
    match cluster.timeline.register phase with
    | (.error error, timeline) => (.error error, { cluster with timeline })
    | (.ok handle, timeline) =>
      let cluster := runNodes (plan.collectPhase job mergeNode) { cluster with timeline } nodes
      let (outcome, timeline) := cluster.timeline.settle.result handle
      (outcome, { cluster with timeline })

end Cluster

end ShardQuery
