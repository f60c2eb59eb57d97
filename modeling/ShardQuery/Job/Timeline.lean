import ShardQuery.Job.Manager
/-!
# Timelines

A manager, its tasks, and the owners of its jobs on a clock that moves only while
every task waits. Tasks take their steps in the order in which they came; those
about to merge let all others go first.
-/

namespace ShardQuery

/-- What the owner of a job holds. -/
structure JobHandle where
  job : JobId
  context : ContextId
deriving DecidableEq, Inhabited

structure Timeline where
  manager : Manager
  factory : Factory
  jobTimeoutMillis : Nat
  /-- All tasks, each at the place that is its number. -/
  tasks : List Task
  /-- The handles whose outcome was taken. -/
  taken : List JobHandle

namespace Timeline

def start (manager : Manager) (factory : Factory) (jobTimeoutMillis : Nat) : Timeline :=
  ⟨manager, factory, jobTimeoutMillis, [], []⟩

/-- No task takes more steps than this without waiting for time to pass. -/
def maxSteps : Nat := 12

/-- Steps of one task until it is idle, or is about to merge where `holdsMerges`. -/
def settleTask (holdsMerges : Bool) : (fuel : Nat) → Task → Manager → Task × Manager
  | 0, task, manager => (task, manager)
  | fuel + 1, task, manager =>
    if task.isIdle manager || (holdsMerges && task.isGathering) then (task, manager)
    else
      let (task, manager) := task.step manager
      settleTask holdsMerges fuel task manager

def settleTasks (holdsMerges : Bool) : List Task → Manager → List Task × Manager
  | [], manager => ([], manager)
  | task :: rest, manager =>
    let (task, manager) := settleTask holdsMerges maxSteps task manager
    let (rest, manager) := settleTasks holdsMerges rest manager
    (task :: rest, manager)

def settle (timeline : Timeline) : Timeline :=
  let (tasks, manager) := settleTasks true timeline.tasks timeline.manager
  let (tasks, manager) := settleTasks false tasks manager
  { timeline with tasks, manager }

def nextDeadline? (timeline : Timeline) : Option Nat :=
  (timeline.tasks.filterMap Task.deadline?).min?

/-- Moves the clock, never back. -/
def setClock (now : Nat) (timeline : Timeline) : Timeline :=
  { timeline with manager := { timeline.manager with now := max now timeline.manager.now } }

/-- Lets time pass up to the next deadlines until `stop` holds or `limit` is reached; every
deadline ends a task, so `fuel` need not exceed the number of tasks. -/
def passDeadlines (stop : Timeline → Bool) (limit : Nat) : (fuel : Nat) → Timeline → Timeline
  | 0, timeline => timeline
  | fuel + 1, timeline =>
    if stop timeline then timeline
    else match timeline.nextDeadline? with
      | some deadline =>
        if deadline ≤ limit then
          passDeadlines stop limit fuel (timeline.setClock deadline).settle
        else timeline
      | none => timeline

def runUntil (limit : Nat) (timeline : Timeline) : Timeline :=
  (passDeadlines (fun _ => false) limit (timeline.tasks.length + 1) timeline.settle).setClock limit

def advance (millis : Nat) (timeline : Timeline) : Timeline :=
  timeline.runUntil (timeline.manager.now + millis)

def spawn (task : Task) (timeline : Timeline) : Nat × Timeline :=
  (timeline.tasks.length, { timeline with tasks := timeline.tasks ++ [task] }.settle)

def result? (id : Nat) (timeline : Timeline) : Option DeliveryResult :=
  timeline.tasks[id]?.bind Task.result?

def await (id : Nat) (timeline : Timeline) : Option DeliveryResult × Timeline :=
  let last := ((timeline.tasks.filterMap Task.deadline?).max?).getD 0
  let timeline := passDeadlines (fun timeline => (timeline.result? id).isSome) last
    (timeline.tasks.length + 1) timeline.settle
  (timeline.result? id, timeline)

def receive (payload : List UInt8) (timeline : Timeline) : Option DeliveryResult × Timeline :=
  let (id, timeline) := timeline.spawn (.arrived payload)
  timeline.await id

def register (phase : MergePhase) (timeline : Timeline) :
    Except EngineError JobHandle × Timeline :=
  let context := do
    let chain ← Chain.build timeline.factory phase.projections
    MergeContext.create phase chain
  match context with
  | .error error => (.error error, timeline)
  | .ok context =>
    let (id, manager) := timeline.manager.register context
    let timeline := { timeline with manager }.settle
    (id.map fun id => ⟨phase.job, id⟩, timeline)

def finishedProducers (handle : JobHandle) (timeline : Timeline) : Nat :=
  (timeline.manager.contexts[handle.context]?.map (·.finishedProducers)).getD 0

def outcome? (handle : JobHandle) (timeline : Timeline) : Option JobOutcome :=
  timeline.manager.contexts[handle.context]?.bind (·.outcome)

/-- Waits for the outcome of a job. A job that takes too long fails. An outcome can be taken
once. -/
def result (handle : JobHandle) (timeline : Timeline) : JobOutcome × Timeline :=
  if timeline.taken.contains handle then
    (.error (.execution s!"job {handle.job} ended without a result"), timeline)
  else
    let limit := timeline.manager.now + timeline.jobTimeoutMillis
    let timeline := passDeadlines (fun timeline => (timeline.outcome? handle).isSome) limit
      (timeline.tasks.length + 1) timeline
    match timeline.outcome? handle with
    | some outcome => (outcome, { timeline with taken := handle :: timeline.taken })
    | none =>
      let timeline := timeline.setClock limit
      let expected :=
        (timeline.manager.contexts[handle.context]?.map (·.expectedProducers)).getD 0
      let error : EngineError :=
        .jobTimeout handle.job (timeline.finishedProducers handle) expected
      let (_, timeline) := timeline.spawn (.failing handle.job error (.error error))
      (.error error, timeline)

def fail (job : JobId) (error : EngineError) (timeline : Timeline) : Timeline :=
  (timeline.spawn (.failing job error (.error error))).2

def cancel (job : JobId) (timeline : Timeline) : Timeline :=
  (timeline.spawn (.cancelling job)).2

end Timeline

end ShardQuery
