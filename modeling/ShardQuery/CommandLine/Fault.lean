import ShardQuery.Error
/-!
# Faults of commands

What a command reports when it fails: a code for the part of the work that failed,
and a message.
-/

namespace ShardQuery

inductive FaultKind where
  | config
  | io
  | plan
  | input
  | execution
deriving DecidableEq, Inhabited

def FaultKind.code : FaultKind → String
  | config => "GRID_CLI_CONFIG_ERROR"
  | io => "GRID_CLI_IO_ERROR"
  | plan => "GRID_CLI_PLAN_ERROR"
  | input => "GRID_CLI_INPUT_ERROR"
  | execution => "GRID_CLI_EXECUTION_FAILED"

structure Fault where
  kind : FaultKind
  message : String
deriving DecidableEq, Inhabited

namespace Fault

def display (fault : Fault) : String := s!"{fault.kind.code}: {fault.message}"

instance : ToString Fault := ⟨display⟩

def kindOf : EngineError → FaultKind
  | .config _ => .config
  | .invalidPlan _ | .typeResolution _ | .granularityViolation .. => .plan
  | _ => .execution

def ofEngine (error : EngineError) : Fault := ⟨kindOf error, error.describe⟩

end Fault

end ShardQuery
