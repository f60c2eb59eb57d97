import ShardQuery.Execution.Chain
import ShardQuery.Job.Plan
import ShardQuery.Job.Request
/-!
# Merge contexts

A merge context gathers the requests of one job. Each operation here happens as a
whole: between two of them other operations on the same context may come. A
producer has finished once as many of its requests have come as its last one
announces by its place in the sequence. When all producers have finished the
buckets are merged, and the first outcome that is published closes the context.
-/

namespace ShardQuery

/-- The rows of a job, or why there are none. -/
abbrev JobOutcome := Except EngineError (List Row)

inductive Acceptance where
  | pending
  | ready
  /-- The request came too late. -/
  | closed
deriving DecidableEq, Inhabited

def Acceptance.name : Acceptance → String
  | .pending => "pending"
  | .ready => "ready"
  | .closed => "closed"

/-- The requests of one producer. -/
structure Progress where
  received : Nat
  expected : Option Nat
deriving DecidableEq, Inhabited

namespace Progress

def none : Progress := ⟨0, Option.none⟩

def isComplete (progress : Progress) : Bool := progress.expected == some progress.received

end Progress

structure MergeContext where
  job : JobId
  inputTypes : List DataType
  expectedProducers : Nat
  /-- The buckets in the order in which they came. -/
  buckets : List Bucket
  progress : List (UInt32 × Progress)
  finishedProducers : Nat
  /-- The chain, until the merge takes it. -/
  chain : Option Chain
  cancelled : Bool
  merging : Bool
  closed : Bool
  outcome : Option JobOutcome

namespace MergeContext

def create (phase : MergePhase) (chain : Chain) : Except EngineError MergeContext := do
  phase.validate
  return {
    job := phase.job
    inputTypes := phase.inputTypes
    expectedProducers := phase.producers.toNat
    buckets := []
    progress := []
    finishedProducers := 0
    chain := some chain
    cancelled := false
    merging := false
    closed := false
    outcome := none }

def progressOf (context : MergeContext) (producer : UInt32) : Progress :=
  (context.progress.lookup producer).getD .none

def setProgress (context : MergeContext) (producer : UInt32) (progress : Progress) :
    MergeContext :=
  let others := context.progress.filter (·.1 != producer)
  { context with progress := (producer, progress) :: others }

/-- The number of requests that a last request with this place in the sequence announces. -/
def announced (sequence : UInt64) : Nat := min (sequence.toNat + 1) 0xffffffffffffffff

/-- One more request of a producer that has not finished: the progress afterwards, and the fault
of the request if it has one. -/
def advance (job : JobId) (request : Request) (progress : Progress) :
    Progress × Option EngineError :=
  let counted := { progress with received := progress.received + 1 }
  let fault (reason : String) : EngineError := .execution s!"job {job} received {reason}"
  if request.isLast ∧ progress.expected.isSome then
    (counted, some (fault s!"a second end of stream from producer {request.producer}"))
  else
    let counted :=
      if request.isLast then { counted with expected := some (announced request.sequence) }
      else counted
    if counted.expected.any (· < counted.received) then
      (counted, some (fault s!"more requests from producer {request.producer} than it announced"))
    else (counted, none)

/-- Takes a bucket of a producer whose progress is now `progress`. -/
def addBucket (context : MergeContext) (bucket : Bucket) (progress : Progress) :
    Acceptance × MergeContext :=
  let context := { context with buckets := context.buckets ++ [bucket] }
  if progress.isComplete then
    let finished := context.finishedProducers + 1
    let isReady := finished == context.expectedProducers
    (if isReady then .ready else .pending,
      { context with finishedProducers := finished, merging := isReady })
  else (.pending, context)

def accept (context : MergeContext) (request : Request) :
    Except EngineError Acceptance × MergeContext :=
  if context.closed || context.merging then (.ok .closed, context)
  else match request.payload with
    | .failure message => (.error (.remote message), context)
    | .rows bucket =>
      let producer := request.producer
      let fault (reason : String) : Except EngineError Acceptance :=
        .error (.execution s!"job {context.job} received {reason}")
      if context.expectedProducers ≤ producer.toNat then
        (fault s!"rows from producer {producer} of {context.expectedProducers}", context)
      else
        let progress := context.progressOf producer
        if progress.isComplete then
          (fault s!"request {request.sequence} after producer {producer} finished", context)
        else
          let (progress, error) := advance context.job request progress
          let context := context.setProgress producer progress
          match error with
          | some error => (.error error, context)
          | none =>
            let (acceptance, context) := context.addBucket bucket progress
            (.ok acceptance, context)

/-- Takes the buckets out for the merge; a closed context has none. -/
def takeBuckets (context : MergeContext) : Except EngineError (List Bucket) × MergeContext :=
  if context.closed then (.error .cancelled, context)
  else (.ok context.buckets, { context with buckets := [] })

/-- Takes the chain out, which can be done once. -/
def takeChain (context : MergeContext) : Except EngineError Chain × MergeContext :=
  match context.chain with
  | some chain => (.ok chain, { context with chain := none })
  | none => (.error (.execution s!"job {context.job} already merged"), context)

/-- Runs the chain over the buckets. Comes also to the sink after the run. -/
def merge (context : MergeContext) (buckets : List Bucket) (sink : Sink) :
    JobOutcome × MergeContext × Sink :=
  match context.takeChain with
  | (.error error, context) => (.error error, context, sink)
  | (.ok chain, context) =>
    let (outcome, sink) :=
      chain.execute .cluster context.cancelled (Bucket.concat buckets) sink
    (outcome, context, sink)

def complete (context : MergeContext) (sink : Sink) : JobOutcome × MergeContext × Sink :=
  match context.takeBuckets with
  | (.error error, context) => (.error error, context, sink)
  | (.ok buckets, context) => context.merge buckets sink

/-- Hands over an outcome unless one was handed over before. -/
def publish (outcome : JobOutcome) (context : MergeContext) : MergeContext :=
  if context.closed then context
  else { context with closed := true, buckets := [], outcome := some outcome }

def raiseCancel (context : MergeContext) : MergeContext := { context with cancelled := true }

def fail (error : EngineError) (context : MergeContext) : MergeContext :=
  context.raiseCancel.publish (.error error)

def cancel (context : MergeContext) : MergeContext := context.fail .cancelled

end MergeContext

end ShardQuery
