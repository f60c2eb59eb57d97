import ShardQuery.Error
/-!
# The table of jobs

Which jobs are active, which have ended, and for which a result was given up before
they were registered. What has been in the table for the retention time may be
forgotten. Each operation happens as a whole.
-/

namespace ShardQuery

/-- The place of a merge context among all contexts. -/
abbrev ContextId := Nat

structure JobTable where
  active : List (JobId × ContextId)
  /-- Ended jobs and when they ended. -/
  finished : List (JobId × Nat)
  /-- Jobs that must fail as soon as they are registered, and since when. -/
  pendingFailures : List (JobId × EngineError × Nat)
deriving Inhabited

inductive JobStatus where
  | active (context : ContextId)
  | finished
  | unknown
deriving DecidableEq

inductive Registration where
  | refused
  /-- The job ended at once, with an error that had waited for it. -/
  | failed (error : EngineError)
  | active
deriving DecidableEq

namespace JobTable

def empty : JobTable := ⟨[], [], []⟩

def tracked (table : JobTable) : Nat :=
  table.active.length + table.finished.length + table.pendingFailures.length

/-- Puts a value in the place of all values of a job. -/
def put {α : Type} (job : JobId) (value : α) (entries : List (JobId × α)) : List (JobId × α) :=
  (job, value) :: entries.filter (·.1 != job)

/-- Forgets what is as old as the retention time. -/
def prune (now retention : Nat) (table : JobTable) : JobTable :=
  { table with
    finished := table.finished.filter fun (_, since) => now - since < retention
    pendingFailures := table.pendingFailures.filter fun (_, _, since) => now - since < retention }

def status (table : JobTable) (job : JobId) : JobStatus :=
  match table.active.lookup job with
  | some context => .active context
  | none => if (table.finished.lookup job).isSome then .finished else .unknown

def finish (now retention : Nat) (job : JobId) (table : JobTable) : JobTable :=
  let table := table.prune now retention
  { table with finished := put job now table.finished }

/-- Registers a job unless it is active or remembered as ended. -/
def register (now retention : Nat) (job : JobId) (context : ContextId) (table : JobTable) :
    Registration × JobTable :=
  let table := table.prune now retention
  if table.status job ≠ .unknown then (.refused, table)
  else match table.pendingFailures.lookup job with
    | some (error, _) =>
      let others := table.pendingFailures.filter (·.1 != job)
      (.failed error, finish now retention job { table with pendingFailures := others })
    | none => (.active, { table with active := put job context table.active })

/-- Ends a job, registered or not. Comes to its context if it was active. -/
def retire (now retention : Nat) (job : JobId) (table : JobTable) :
    Option ContextId × JobTable :=
  let others := table.active.filter (·.1 != job)
  (table.active.lookup job, finish now retention job { table with active := others })

/-- Gives up waiting for a job that is still unknown: it will fail when it is registered. Comes to
what the table knew about the job. -/
def giveUp (now retention : Nat) (job : JobId) (error : EngineError) (table : JobTable) :
    JobStatus × JobTable :=
  match table.status job with
  | .unknown =>
    let table := table.prune now retention
    (.unknown, { table with pendingFailures := put job (error, now) table.pendingFailures })
  | status => (status, table)

end JobTable

end ShardQuery
