import ShardQuery.JobId
import ShardQuery.Projection.Kind
/-!
# Errors of the engine

Every failure has a code that never changes and a message. Only a failed merge is
fatal: it means that two producers disagreed on the shape of a plan that had been
checked.

A step may also halt the task that takes it. It then has no error of its own; one is made
up where the end of the task is awaited.
-/

namespace ShardQuery

inductive EngineError where
  | typeResolution (reason : String)
  /-- Bytes that cannot be read, or a value that does not fit its column. -/
  | serialization (reason : String)
  /-- Results arrived for a job that did not register in time. -/
  | contextTimeout (job : JobId) (waitedMillis : Nat)
  | merge (reason : String)
  | execution (reason : String)
  /-- A projection ran below the level that it requires. -/
  | granularityViolation (projection : ProjectionKind) (required actual : Granularity)
  | invalidPlan (reason : String)
  | cancelled
  /-- Not every producer finished before the deadline of the job. -/
  | jobTimeout (job : JobId) (finished expected : Nat)
  | remote (reason : String)
  | config (reason : String)
deriving DecidableEq, Inhabited

namespace EngineError

def code : EngineError → String
  | typeResolution _ => "GRID_TYPE_RESOLUTION"
  | serialization _ => "GRID_SERIALIZATION"
  | contextTimeout .. => "GRID_CONTEXT_TIMEOUT"
  | merge _ => "GRID_MERGE_FAILED"
  | execution _ => "GRID_EXECUTION_FAILED"
  | granularityViolation .. => "GRID_GRANULARITY_VIOLATION"
  | invalidPlan _ => "GRID_INVALID_PLAN"
  | cancelled => "GRID_CANCELLED"
  | jobTimeout .. => "GRID_JOB_TIMEOUT"
  | remote _ => "GRID_REMOTE_FAILURE"
  | config _ => "GRID_CONFIG_ERROR"

def message : EngineError → String
  | typeResolution reason => s!"type resolution failed: {reason}"
  | serialization reason => s!"serialization failed: {reason}"
  | contextTimeout job waited =>
    s!"no execution context registered for job {job} within {waited}ms"
  | merge reason => s!"merge failed: {reason}"
  | execution reason => s!"execution failed: {reason}"
  | granularityViolation projection required actual =>
    s!"{projection} projection requires {required} granularity but was invoked at {actual}"
  | invalidPlan reason => s!"invalid plan: {reason}"
  | cancelled => "execution cancelled"
  | jobTimeout job finished expected =>
    s!"job {job} timed out with {finished} of {expected} producers finished"
  | remote reason => s!"remote execution failed: {reason}"
  | config reason => s!"invalid configuration: {reason}"

def isFatal : EngineError → Bool
  | merge _ => true
  | _ => false

/-- The level of the failure: an error fails its job, a fatal one shows a fault of the engine. -/
def severity (error : EngineError) : String := if error.isFatal then "FATAL" else "ERROR"

def describe (error : EngineError) : String := error.code ++ ": " ++ error.message

instance : ToString EngineError := ⟨message⟩

end EngineError

/-- What a step comes to instead of a result. -/
inductive Halt where
  | error (e : EngineError)
  /-- A sum has no room in its word. The task stops in the middle of its work. -/
  | overflow
deriving DecidableEq

namespace Halt

variable {α : Type}

instance : Coe EngineError Halt := ⟨error⟩

def ofExcept (result : Except EngineError α) : Except Halt α := result.mapError error

/-- What those who await the task are told. The name of the task is left out. -/
def report : Halt → EngineError
  | error e => e
  | overflow => .execution "attempt to add with overflow"

/-- The result of the step as the result of its task. -/
def reported (result : Except Halt α) : Except EngineError α := result.mapError report

variable {result : Except EngineError α} {step : Except Halt α} {a : α}

@[simp] theorem reported_ok (a : α) : reported (.ok a) = .ok a := rfl

@[simp] theorem reported_error (h : Halt) : reported (.error h : Except Halt α) = .error h.report :=
  rfl

@[simp] theorem reported_ofExcept (result : Except EngineError α) :
    reported (ofExcept result) = result := by
  cases result <;> rfl

theorem reported_eq_ok : reported step = .ok a ↔ step = .ok a := by
  cases step <;> simp

@[simp] theorem ofExcept_ok (a : α) : ofExcept (.ok a) = .ok a := rfl

@[simp] theorem ofExcept_error (e : EngineError) :
    ofExcept (.error e : Except EngineError α) = .error (.error e) := rfl

theorem ofExcept_eq_ok : ofExcept result = .ok a ↔ result = .ok a := by
  cases result <;> simp

end Halt

end ShardQuery
