import ShardQuery.Execution.Stage
/-!
# Chains

Building a chain finds every fault that does not depend on rows: levels that become
finer, unknown functions, and arguments, keys and queries of wrong types.
-/

namespace ShardQuery

structure Factory where
  registry : Registry
  /-- Whether written rows have somewhere to go. -/
  hasSink : Bool

namespace Factory

def standard : Factory := ⟨.builtin, true⟩

/-- Checks that the inputs of a call are what its function takes, counted from `position`. -/
def checkInputs (name : String) (position : Nat) :
    List Symbol → List DataType → Except EngineError Unit
  | input :: rest, expected :: types =>
    let actual := input.valueType
    if actual ≠ expected ∧ actual ≠ .undefined then
      let types := s!"is declared {expected} but receives {actual}"
      .error (.typeResolution s!"{name} argument {position} {types}")
    else checkInputs name (position + 1) rest types
  | _, _ => .ok ()

def checkRows (call : AggregateCall) : Except EngineError Unit :=
  let declared := call.info.argumentTypes
  if call.inputs.length ≠ declared.length then
    let counts := s!"{declared.length} arguments but receives {call.inputs.length} inputs"
    .error (.typeResolution s!"{call.info.name} declares {counts}")
  else checkInputs call.info.name 0 call.inputs declared

def checkStates (call : AggregateCall) : Except EngineError Unit :=
  if call.inputs.all fun input => input.valueType == .aggregationState then .ok ()
  else
    let fault := "merges partial states but its input is not a state column"
    .error (.invalidPlan s!"{call.info.name} {fault}")

def aggregator (factory : Factory) (call : AggregateCall) : Except EngineError Aggregator := do
  call.validate
  match call.fromStep with
  | .rows => checkRows call
  | .states => checkStates call
  | .results => pure ()
  let function ← factory.registry.verifyAggregate call.info
  let inputs ← Expression.compileAll factory.registry call.inputs
  return ⟨function, inputs, call.fromStep, call.toStep⟩

def sorter (factory : Factory) (key : SortKey) : Except EngineError Sorter := do
  let type := key.symbol.valueType
  if !type.isComparable then
    throw (.typeResolution s!"cannot order by a {type} column")
  return ⟨← Expression.compile factory.registry key.symbol, key.descending, key.nullsFirst⟩

def action (factory : Factory) : Projection → Except EngineError Action
  | .filter query outputs _ => do
    if !Operator.isTruth query.valueType then
      throw (.invalidPlan s!"filter query has type {query.valueType}, expected boolean")
    let query ← Expression.compile factory.registry query
    return .filter query (← Expression.compileAll factory.registry outputs)
  | .aggregation calls _ => do
    return .aggregation (← calls.mapM factory.aggregator)
  | .group keys calls _ => do
    let keys ← Expression.compileAll factory.registry keys
    return .group keys (← calls.mapM factory.aggregator)
  | .topN outputs keys limit offset _ => do
    let outputs ← Expression.compileAll factory.registry outputs
    let keys ← keys.mapM factory.sorter
    return .topN outputs keys (limit.map UInt64.toNat) offset.toNat
  | .order outputs keys _ => do
    if keys.isEmpty then throw (.invalidPlan "order projection without sort keys")
    let outputs ← Expression.compileAll factory.registry outputs
    return .order outputs (← keys.mapM factory.sorter)
  | .write inputs _ => do
    if !factory.hasSink then throw (.invalidPlan "write projection requires a row sink")
    return .write (← Expression.compileAll factory.registry inputs)

def stage (factory : Factory) (projection : Projection) : Except EngineError Stage := do
  return ⟨projection.granularity, ← factory.action projection⟩

end Factory

structure Chain where
  stages : List Stage

namespace Chain

def build (factory : Factory) (projections : List Projection) : Except EngineError Chain := do
  Projection.validateChain projections
  return ⟨← projections.mapM factory.stage⟩

/-- Runs all stages at a level of the cluster. Streamed rows may still be in their source
afterwards. -/
def run (chain : Chain) (level : Granularity) (input : Bucket) : Run Flow :=
  chain.stages.foldlM (fun flow stage => stage.execute level flow) (Flow.ofBucket input)

def runRows (chain : Chain) (level : Granularity) (input : Bucket) : Run (List Row) := do
  (← chain.run level input).rows

/-- Runs all stages with this flag and sink. Comes to the rows, and to the sink after the run. -/
def execute (chain : Chain) (level : Granularity) (cancelled : Bool) (input : Bucket)
    (sink : Sink) : Except EngineError (List Row) × Sink :=
  let (result, session) := (chain.runRows level input).within (.start cancelled sink)
  (result, session.sink)

end Chain

end ShardQuery
