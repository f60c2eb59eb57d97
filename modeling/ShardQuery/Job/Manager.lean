import ShardQuery.Job.Context
import ShardQuery.Job.Table
import ShardQuery.Telemetry
/-!
# The job manager

The manager brings requests to the merge contexts of their jobs. Many tasks work
with it at the same time: deliveries of requests, registrations, and orders to end a
job. A task is a sequence of steps, each of which happens as a whole; between two
steps of a task other tasks may take theirs. A request that comes before its job is
registered waits, and looks again whenever any job is registered.
-/

namespace ShardQuery

inductive Delivery where
  | delivered
  /-- The request ended its job. -/
  | completed
  | discarded
deriving DecidableEq, Inhabited

def Delivery.name : Delivery → String
  | .delivered => "delivered"
  | .completed => "completed"
  | .discarded => "discarded"

abbrev DeliveryResult := Except EngineError Delivery

/-- What all tasks share. Times are in milliseconds. -/
structure Manager where
  now : Nat
  waitMillis : Nat
  retentionMillis : Nat
  table : JobTable
  contexts : List MergeContext
  generation : Nat
  telemetry : Telemetry
  sink : Sink

/-- Where a task stands. -/
inductive Task where
  /-- A request whose header has not been read. -/
  | arrived (payload : List UInt8)
  /-- A request about to look for its job; `seen` is the last registration it knows of. -/
  | looking (payload : List UInt8) (job : JobId) (deadline seen : Nat) (isDeferred : Bool)
  /-- A request whose job was unknown when it looked. -/
  | waiting (payload : List UInt8) (job : JobId) (deadline seen : Nat)
  /-- A request that has waited too long, about to look for its job for the last time. -/
  | expired (payload : List UInt8) (job : JobId)
  /-- A request about to be handed to a context. -/
  | handing (payload : List UInt8) (job : JobId) (context : ContextId)
  /-- All producers have finished; the buckets are about to be taken. -/
  | gathering (context : ContextId)
  | merging (context : ContextId) (buckets : List Bucket)
  /-- The merge has ended; the job is about to be retired. -/
  | retiring (context : ContextId) (outcome : JobOutcome)
  /-- The job is about to be retired because of an error. -/
  | failing (job : JobId) (error : EngineError) (result : DeliveryResult)
  /-- The job is about to be retired because it was cancelled. -/
  | cancelling (job : JobId)
  /-- The merge of a retired job is about to be stopped. -/
  | stopping (context : ContextId) (error : EngineError) (result : DeliveryResult)
  | publishing (context : ContextId) (outcome : JobOutcome) (result : DeliveryResult)
  | ended (result : DeliveryResult)
  /-- A context whose job is about to be registered. -/
  | registering (context : MergeContext)
  /-- A job in the table, of which waiting requests have not been told; it ends at once if an error
  had waited for it. -/
  | announcing (job : JobId) (context : ContextId) (failure : Option EngineError)
  | registered (result : Except EngineError ContextId)

namespace Manager

def start (waitMillis retentionMillis : Nat) (minimum : Severity) (sink : Sink) : Manager where
  now := 0
  waitMillis
  retentionMillis
  table := .empty
  contexts := []
  generation := 0
  telemetry := .start minimum
  sink

def count (counter : Counter) (n : UInt64) (manager : Manager) : Manager :=
  { manager with telemetry := manager.telemetry.count counter n }

def increment (counter : Counter) (manager : Manager) : Manager := manager.count counter 1

def note (event : Event) (job : JobId) (fields : List (String × String)) (manager : Manager) :
    Manager :=
  { manager with telemetry := manager.telemetry.note event (("job_id", job.toText) :: fields) }

def updateContext (id : ContextId) (f : MergeContext → MergeContext) (manager : Manager) :
    Manager :=
  { manager with contexts := manager.contexts.modify id f }

def recordOutcome (job : JobId) (outcome : JobOutcome) (manager : Manager) : Manager :=
  match outcome with
  | .ok rows =>
    (manager.increment .jobsCompleted).note .jobCompleted job [("rows", toString rows.length)]
  | .error error =>
    (manager.increment .jobsFailed).note .jobFailed job [("reason", error.message)]

/-- Ends a job, registered or not. Comes to its context if it was active. -/
def retire (job : JobId) (manager : Manager) : Option ContextId × Manager :=
  let (context, table) := manager.table.retire manager.now manager.retentionMillis job
  (context, { manager with table })

/-- Enters a job with a new context into the table. Comes to the context, and to the error that
had waited for the job. -/
def enter (context : MergeContext) (manager : Manager) :
    Except EngineError (ContextId × Option EngineError) × Manager :=
  let job := context.job
  let id := manager.contexts.length
  let (registration, table) :=
    manager.table.register manager.now manager.retentionMillis job id
  let manager := { manager with table }
  let known := { manager with contexts := manager.contexts ++ [context] }
  match registration with
  | .refused => (.error (.invalidPlan s!"job {job} is already registered"), manager)
  | .failed error => (.ok (id, some error), known)
  | .active => (.ok (id, none), known)

/-- Tells waiting requests of a registration. The context of a job that ends at once is not yet
known to others, so that it fails as a whole. -/
def announce (job : JobId) (id : ContextId) (failure : Option EngineError) (manager : Manager) :
    Manager :=
  let manager := { manager with generation := manager.generation + 1 }
  match failure with
  | some error =>
    (manager.recordOutcome job (.error error)).updateContext id (MergeContext.fail error)
  | none => manager.note .jobRegistered job []

/-- Registers a job with a new context, which fails at once if a request had given up on the
job. -/
def register (context : MergeContext) (manager : Manager) :
    Except EngineError ContextId × Manager :=
  match manager.enter context with
  | (.error error, manager) => (.error error, manager)
  | (.ok (id, failure), manager) => (.ok id, manager.announce context.job id failure)

def discard (job : JobId) (manager : Manager) : Task × Manager :=
  (.ended (.ok .discarded), (manager.increment .resultsDiscarded).note .resultDiscarded job [])

end Manager

namespace Task

def arrive (payload : List UInt8) (manager : Manager) : Task × Manager :=
  let manager := manager.increment .requestsReceived
  match Request.Header.peek payload with
  | .ok header =>
    let deadline := manager.now + manager.waitMillis
    (.looking payload header.job deadline manager.generation false, manager)
  | .error error =>
    let manager := manager.increment .malformedPayloads
    let fields := [("reason", error.message)]
    (.ended (.error error),
      { manager with telemetry := manager.telemetry.note .malformedPayload fields })

def look (payload : List UInt8) (job : JobId) (deadline seen : Nat) (isDeferred : Bool)
    (manager : Manager) : Task × Manager :=
  match manager.table.status job with
  | .active context =>
    (.handing payload job context,
      if isDeferred then manager.note .resultDelivered job [("deferred", "true")] else manager)
  | .finished => manager.discard job
  | .unknown =>
    (.waiting payload job deadline seen,
      if isDeferred then manager
      else (manager.increment .resultsDeferred).note .resultDeferred job [])

def giveUp (payload : List UInt8) (job : JobId) (manager : Manager) : Task × Manager :=
  let error : EngineError := .contextTimeout job manager.waitMillis
  let (status, table) := manager.table.giveUp manager.now manager.retentionMillis job error
  let manager := { manager with table }
  match status with
  | .active context => (.handing payload job context, manager)
  | .finished => manager.discard job
  | .unknown =>
    let waited := [("waited_ms", toString manager.waitMillis)]
    (.ended (.error error),
      (manager.increment .contextTimeouts).note .contextTimeout job waited)

/-- Looks again after a registration, gives up after the deadline, and goes on waiting else. -/
def wait (payload : List UInt8) (job : JobId) (deadline seen : Nat) (manager : Manager) :
    Task × Manager :=
  if manager.generation ≠ seen then
    (.looking payload job deadline manager.generation true, manager)
  else if deadline ≤ manager.now then (.expired payload job, manager)
  else (.waiting payload job deadline seen, manager)

def hand (payload : List UInt8) (job : JobId) (id : ContextId) (manager : Manager) :
    Task × Manager :=
  match manager.contexts[id]? with
  | none => manager.discard job
  | some context =>
    match Request.decode context.inputTypes payload with
    | .error error =>
      let manager := manager.increment .malformedPayloads
      (.failing job error (.error error),
        manager.note .malformedPayload job [("reason", error.message)])
    | .ok request =>
      let manager := match request.payload with
        | .rows bucket => manager.count .rowsReceived (UInt64.ofNat (bucket.size?.getD 0))
        | .failure _ => manager
      let (acceptance, context) := context.accept request
      let manager := manager.updateContext id fun _ => context
      match acceptance with
      | .ok .pending => (.ended (.ok .delivered), manager)
      | .ok .ready => (.gathering id, manager)
      | .ok .closed => manager.discard job
      | .error (.remote message) =>
        (.failing job (.remote message) (.ok .completed), manager)
      | .error error => (.failing job error (.error error), manager)

def gather (id : ContextId) (manager : Manager) : Task × Manager :=
  match manager.contexts[id]? with
  | none => (.ended (.ok .completed), manager)
  | some context =>
    let (buckets, context) := context.takeBuckets
    let manager := manager.updateContext id fun _ => context
    match buckets with
    | .ok buckets => (.merging id buckets, manager)
    | .error error => (.retiring id (.error error), manager)

def merge (id : ContextId) (buckets : List Bucket) (manager : Manager) : Task × Manager :=
  match manager.contexts[id]? with
  | none => (.ended (.ok .completed), manager)
  | some context =>
    let (outcome, context, sink) := context.merge buckets manager.sink
    (.retiring id outcome, { manager.updateContext id fun _ => context with sink })

def retire (id : ContextId) (outcome : JobOutcome) (manager : Manager) : Task × Manager :=
  match manager.contexts[id]? with
  | none => (.ended (.ok .completed), manager)
  | some context =>
    let (_, manager) := manager.retire context.job
    (.publishing id outcome (.ok .completed), manager.recordOutcome context.job outcome)

/-- The next step. A task that has ended, or waits, stays as it is. -/
def step (task : Task) (manager : Manager) : Task × Manager :=
  match task with
  | arrived payload => arrive payload manager
  | looking payload job deadline seen isDeferred =>
    look payload job deadline seen isDeferred manager
  | waiting payload job deadline seen => wait payload job deadline seen manager
  | expired payload job => giveUp payload job manager
  | handing payload job context => hand payload job context manager
  | gathering context => gather context manager
  | merging context buckets => merge context buckets manager
  | retiring context outcome => retire context outcome manager
  | failing job error result =>
    match manager.retire job with
    | (none, manager) => (ended result, manager)
    | (some context, manager) =>
      (stopping context error result, manager.recordOutcome job (.error error))
  | cancelling job =>
    match manager.retire job with
    | (none, manager) => (ended (.ok .discarded), manager)
    | (some context, manager) =>
      (stopping context .cancelled (.ok .completed), manager.note .jobCancelled job [])
  | stopping context error result =>
    (publishing context (.error error) result,
      manager.updateContext context MergeContext.raiseCancel)
  | publishing context outcome result =>
    (ended result, manager.updateContext context (MergeContext.publish outcome))
  | ended result => (ended result, manager)
  | registering context =>
    match manager.enter context with
    | (.error error, manager) => (registered (.error error), manager)
    | (.ok (id, failure), manager) => (announcing context.job id failure, manager)
  | announcing job context failure =>
    (registered (.ok context), manager.announce job context failure)
  | registered result => (registered result, manager)

def isIdle (manager : Manager) : Task → Bool
  | waiting _ _ deadline seen => manager.generation == seen && manager.now < deadline
  | ended _ | registered _ => true
  | _ => false

def deadline? : Task → Option Nat
  | waiting _ _ deadline _ => some deadline
  | _ => none

def result? : Task → Option DeliveryResult
  | ended result => some result
  | _ => none

def isGathering : Task → Bool
  | gathering _ => true
  | _ => false

end Task

end ShardQuery
