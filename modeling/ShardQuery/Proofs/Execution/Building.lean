import ShardQuery.Execution.Chain
import ShardQuery.Proofs.Aggregate.Typing
import ShardQuery.Proofs.Expression.Typing
import ShardQuery.Proofs.Faults
/-!
# Stages that are built

What calls and projections become if the factory accepts them. If it does not, the error
tells what is wrong with the plan or its types.
-/

namespace ShardQuery

open EngineError

namespace Factory

open Expression

def checkCall (call : AggregateCall) : Except EngineError Unit :=
  match call.fromStep with
  | .rows => checkRows call
  | .states => checkStates call
  | .results => .ok ()

theorem aggregator_eq (factory : Factory) (call : AggregateCall) :
    factory.aggregator call = do
      call.validate
      checkCall call
      let function ← factory.registry.verifyAggregate call.info
      let inputs ← compileAll factory.registry call.inputs
      return ⟨function, inputs, call.fromStep, call.toStep⟩ := by
  obtain ⟨info, inputs, fromStep, toStep⟩ := call
  cases fromStep <;> rfl

inductive Builds (factory : Factory) : Projection → Action → Prop
  | filter {query outputs granularity condition es} :
      compile factory.registry query = .ok condition →
      compileAll factory.registry outputs = .ok es →
      Builds factory (.filter query outputs granularity) (.filter condition es)
  | aggregation {calls granularity aggregators} :
      calls.mapM factory.aggregator = .ok aggregators →
      Builds factory (.aggregation calls granularity) (.aggregation aggregators)
  | group {keys calls granularity es aggregators} :
      compileAll factory.registry keys = .ok es →
      calls.mapM factory.aggregator = .ok aggregators →
      Builds factory (.group keys calls granularity) (.group es aggregators)
  | topN {outputs keys limit offset granularity es sorters} :
      compileAll factory.registry outputs = .ok es →
      keys.mapM factory.sorter = .ok sorters →
      Builds factory (.topN outputs keys limit offset granularity)
        (.topN es sorters (limit.map UInt64.toNat) offset.toNat)
  | order {outputs keys granularity es sorters} :
      compileAll factory.registry outputs = .ok es →
      keys.mapM factory.sorter = .ok sorters →
      Builds factory (.order outputs keys granularity) (.order es sorters)
  | write {inputs granularity es} :
      compileAll factory.registry inputs = .ok es →
      Builds factory (.write inputs granularity) (.write es)

variable {factory : Factory} {p : Projection} {action : Action}

theorem builds (h : factory.action p = .ok action) : factory.Builds p action := by
  cases p with
  | filter query outputs granularity =>
    rw [Factory.action] at h
    split at h
    · cases h
    · obtain ⟨condition, hcondition, h⟩ := bind_eq_ok.mp h
      obtain ⟨es, hes, h⟩ := bind_eq_ok.mp h
      cases h
      exact .filter hcondition hes
  | aggregation calls granularity =>
    obtain ⟨aggregators, haggregators, h⟩ := bind_eq_ok.mp h
    cases h
    exact .aggregation haggregators
  | group keys calls granularity =>
    obtain ⟨es, hes, h⟩ := bind_eq_ok.mp h
    obtain ⟨aggregators, haggregators, h⟩ := bind_eq_ok.mp h
    cases h
    exact .group hes haggregators
  | topN outputs keys limit offset granularity =>
    obtain ⟨es, hes, h⟩ := bind_eq_ok.mp h
    obtain ⟨sorters, hsorters, h⟩ := bind_eq_ok.mp h
    cases h
    exact .topN hes hsorters
  | order outputs keys granularity =>
    rw [Factory.action] at h
    split at h
    · cases h
    · obtain ⟨es, hes, h⟩ := bind_eq_ok.mp h
      obtain ⟨sorters, hsorters, h⟩ := bind_eq_ok.mp h
      cases h
      exact .order hes hsorters
  | write inputs granularity =>
    rw [Factory.action] at h
    split at h
    · cases h
    · obtain ⟨es, hes, h⟩ := bind_eq_ok.mp h
      cases h
      exact .write hes

end Factory

-- ---------------------------------------------------------------------------
-- Faults that building finds
-- ---------------------------------------------------------------------------

structure Registry.Reports (registry : Registry) : Prop where
  scalar (signature : Signature) : FailsOnly IsPlanFault (registry.resolveScalar signature)
  aggregate (signature : Signature) : FailsOnly IsPlanFault (registry.resolveAggregate signature)

namespace Registry

variable {registry : Registry}

theorem expectKind_fails (info : FunctionInfo) (kind : FunctionKind) :
    FailsOnly IsPlanFault (expectKind info kind) := by
  unfold expectKind
  split
  · exact .ok ()
  · exact .error .typeResolution

theorem expectReturnType_fails (info : FunctionInfo) (resolved : DataType) :
    FailsOnly IsPlanFault (expectReturnType info resolved) := by
  unfold expectReturnType
  split
  · exact .ok ()
  · exact .error .typeResolution

theorem Reports.verifyScalar (h : registry.Reports) (info : FunctionInfo) :
    FailsOnly IsPlanFault (registry.verifyScalar info) :=
  (expectKind_fails info .scalar).bind fun _ => (h.scalar info.signature).bind fun f =>
    (expectReturnType_fails info f.info.returnType).bind fun _ => .ok f

theorem Reports.verifyAggregate (h : registry.Reports) (info : FunctionInfo) :
    FailsOnly IsPlanFault (registry.verifyAggregate info) :=
  (expectKind_fails info .aggregate).bind fun _ => (h.aggregate info.signature).bind fun f =>
    (expectReturnType_fails info f.info.returnType).bind fun _ => .ok f

end Registry

namespace Expression

theorem checkArguments_fails (info : FunctionInfo) (arguments : List Symbol)
    (types : List DataType) : FailsOnly IsPlanFault (checkArguments info arguments types) := by
  induction arguments generalizing types with
  | nil => exact .ok ()
  | cons argument rest ih =>
    cases types with
    | nil => exact .ok ()
    | cons expected types =>
      rw [checkArguments]
      split
      · exact .error .typeResolution
      · exact ih types

variable {registry : Registry}

mutual
theorem compile_fails (h : registry.Reports) : ∀ symbol : Symbol,
    FailsOnly IsPlanFault (compile registry symbol)
  | .literal value type => by
    rw [compile]
    split
    · exact .ok _
    · exact .error .invalidPlan
  | .reference index type => by
    rw [compile]
    exact .ok _
  | .call info arguments => by
    rw [compile]
    split
    · exact .error .invalidPlan
    · split
      · exact .error .invalidPlan
      · exact (checkArguments_fails info arguments _).bind fun _ =>
          (h.verifyScalar info).bind fun f => (compileAll_fails h arguments).bind fun es => .ok _

theorem compileAll_fails (h : registry.Reports) : ∀ symbols : List Symbol,
    FailsOnly IsPlanFault (compileAll registry symbols)
  | [] => .ok []
  | symbol :: rest => (compile_fails h symbol).bind fun _ => (compileAll_fails h rest).bind fun _ =>
      .ok _
end

end Expression

namespace Factory

variable {factory : Factory}

end Factory

end ShardQuery
