import ShardQuery.Proofs.Manager.History
/-!
# Counters of jobs

Two counters tell the fate of jobs. In every run they count the records of the history
that stand for a job that was counted.
-/

namespace ShardQuery

namespace Record

def isReady (id : ContextId) : Record → Bool
  | answered i (.ok .ready) => i == id
  | _ => false

def isCompletion (id : ContextId) : Record → Bool
  | completed i _ => i == id
  | _ => false

def isStop (id : ContextId) : Record → Bool
  | failed i _ | cancelled i => i == id
  | _ => false

/-- How the context ends by this, and what is sent unless it ended before. -/
def ending? : Record → Option (ContextId × JobOutcome)
  | completed id outcome => some (id, outcome)
  | failed id error => some (id, .error error)
  | cancelled id => some (id, .error .cancelled)
  | _ => none

def counter? : Record → Option Counter
  | completed _ (.ok _) => some .jobsCompleted
  | completed _ (.error _) | failed _ _ => some .jobsFailed
  | _ => none

def counts (id : ContextId) (record : Record) : Bool := record.counter?.isSome && record.id == id

def isFailed (id : ContextId) : Record → Bool
  | failed i _ => i == id
  | _ => false

def ends (id : ContextId) (record : Record) : Bool := record.isCompletion id || record.isStop id

def fate : JobOutcome → Counter
  | .ok _ => .jobsCompleted
  | .error _ => .jobsFailed

theorem ending_of_counter {record : Record} {counter : Counter}
    (h : record.counter? = some counter) :
    ∃ outcome, record.ending? = some (record.id, outcome) ∧ counter = fate outcome := by
  cases record with
  | completed id outcome => cases outcome <;> cases h <;> exact ⟨_, rfl, rfl⟩
  | failed id error =>
    cases h
    exact ⟨_, rfl, rfl⟩
  | _ => cases h

theorem ends_of_ending {id : ContextId} {outcome : JobOutcome} {record : Record}
    (h : record.ending? = some (id, outcome)) : record.ends id = true := by
  cases record <;> cases h <;> simp [ends, isCompletion, isStop]

theorem ends_of_counts {id : ContextId} {record : Record} (h : record.counts id = true) :
    record.ends id = true := by
  obtain ⟨hcounter, hid⟩ := Bool.and_eq_true_iff.mp h
  obtain ⟨counter, hcounter⟩ := Option.isSome_iff_exists.mp hcounter
  obtain ⟨outcome, hending, -⟩ := ending_of_counter hcounter
  exact ends_of_ending (beq_iff_eq.mp hid ▸ hending)

theorem countP_counts (id : ContextId) (history : History) :
    history.countP (counts id) =
      history.countP (isCompletion id) + history.countP (isFailed id) := by
  induction history with
  | nil => rfl
  | cons record history ih =>
    have hone : (counts id record).toNat =
        (isCompletion id record).toNat + (isFailed id record).toNat := by
      cases record with
      | completed i outcome =>
        cases outcome <;> simp [counts, counter?, isCompletion, isFailed, Record.id]
      | failed => simp [counts, counter?, isCompletion, isFailed, Record.id]
      | _ => rfl
    simp only [List.countP_cons, ih]
    cases hc : counts id record <;> cases hm : isCompletion id record <;>
      cases hf : isFailed id record <;> simp [hc, hm, hf] at hone ⊢ <;> omega

theorem id_of_isStop {id : ContextId} {record : Record} (h : record.isStop id = true) :
    record.id = id := by
  cases record with
  | failed | cancelled => simpa [isStop, Record.id] using h
  | _ => cases h

end Record

-- ---------------------------------------------------------------------------
-- What operations of the manager count
-- ---------------------------------------------------------------------------

theorem Metrics.get_add (metrics : Metrics) (counter other : Counter) (n : UInt64) :
    (metrics.add counter n).get other = metrics.get other + if other = counter then n else 0 := by
  by_cases h : other = counter
  · simp [get, add, h]
  · simp [get, add, h, lookup_cons_ne h, lookup_filter_ne _ h]

inductive Counter.IsFate : Counter → Prop where
  | completed : IsFate .jobsCompleted
  | failed : IsFate .jobsFailed

namespace Manager

variable {manager : Manager} {counter : Counter}

def counted (counter : Counter) (manager : Manager) : UInt64 :=
  manager.telemetry.metrics.get counter

@[simp] theorem counted_note (event : Event) (job : JobId) (fields : List (String × String)) :
    (manager.note event job fields).counted counter = manager.counted counter := rfl

@[simp] theorem counted_count (other : Counter) (n : UInt64) :
    (manager.count other n).counted counter =
      manager.counted counter + if counter = other then n else 0 :=
  Metrics.get_add ..

@[simp] theorem counted_increment (other : Counter) :
    (manager.increment other).counted counter =
      manager.counted counter + if counter = other then 1 else 0 :=
  Metrics.get_add ..

@[simp] theorem counted_updateContext (id : ContextId) (f : MergeContext → MergeContext) :
    (manager.updateContext id f).counted counter = manager.counted counter := rfl

theorem counted_discard (job : JobId) (hc : counter.IsFate) :
    (manager.discard job).2.counted counter = manager.counted counter := by
  cases hc <;> simp [discard]

theorem counted_recordOutcome (id : ContextId) (job : JobId) (outcome : JobOutcome) :
    (manager.recordOutcome job outcome).counted counter = manager.counted counter +
      if (Record.completed id outcome).counter? = some counter then 1 else 0 := by
  cases outcome <;> simp [recordOutcome, Record.counter?, eq_comm]

end Manager

-- ---------------------------------------------------------------------------
-- What a turn counts
-- ---------------------------------------------------------------------------

namespace Task

open Manager

variable {manager manager' : Manager} {task next : Task} {counter : Counter}

theorem counted_hand (payload : List UInt8) (job : JobId) (id : ContextId) (hc : counter.IsFate) :
    (hand payload job id manager).2.counted counter = manager.counted counter := by
  unfold hand
  cases manager.contexts[id]? with
  | none => exact counted_discard job hc
  | some context =>
    cases hd : Request.decode context.inputTypes payload with
    | error error => cases hc <;> simp [hd]
    | ok request =>
      simp only [hd]
      cases request.payload <;> split <;> cases hc <;> simp [Manager.discard]

def credit (counter : Counter) (record : Option Record) : UInt64 :=
  if record.bind Record.counter? = some counter then 1 else 0

theorem counted_arrive (payload : List UInt8) (hc : counter.IsFate) :
    (arrive payload manager).2.counted counter = manager.counted counter := by
  unfold arrive
  cases Request.Header.peek payload with
  | ok header => cases hc <;> simp
  | error error =>
    change ((manager.increment .requestsReceived).increment .malformedPayloads).counted counter = _
    cases hc <;> simp

theorem counted_look (payload : List UInt8) (job : JobId) (deadline seen : Nat) (isDeferred : Bool)
    (hc : counter.IsFate) :
    (look payload job deadline seen isDeferred manager).2.counted counter =
      manager.counted counter := by
  unfold look
  cases manager.table.status job with
  | active id => cases isDeferred <;> rfl
  | finished => exact counted_discard job hc
  | unknown => cases isDeferred <;> cases hc <;> simp

theorem counted_giveUp (payload : List UInt8) (job : JobId) (hc : counter.IsFate) :
    (giveUp payload job manager).2.counted counter = manager.counted counter := by
  have hcounted : Manager.counted counter { manager with table := manager.givenUp job } =
    manager.counted counter := rfl
  simp only [giveUp, JobTable.giveUp_fst]
  cases manager.table.status job with
  | active id => exact hcounted
  | finished => exact (counted_discard job hc).trans hcounted
  | unknown => cases hc <;> simpa using hcounted

theorem counted_step (hc : counter.IsFate) (task : Task) (manager : Manager) :
    (task.step manager).2.counted counter =
      manager.counted counter + credit counter (task.record? manager) := by
  have hquiet {manager' : Manager} (h : manager'.counted counter = manager.counted counter) :
      manager'.counted counter = manager.counted counter + credit counter none :=
    h.trans (UInt64.add_zero _).symm
  cases task with
  | arrived payload => exact hquiet (counted_arrive payload hc)
  | looking payload job deadline seen isDeferred => exact hquiet (counted_look _ _ _ _ _ hc)
  | waiting payload job deadline seen =>
    refine hquiet ?_
    simp only [step, wait]
    split_ifs <;> rfl
  | expired payload job => exact hquiet (counted_giveUp payload job hc)
  | handing payload job id =>
    have hnone : (record? manager (handing payload job id)).bind Record.counter? = none := by
      simp only [record?]
      cases manager.contexts[id]? with
      | none => rfl
      | some context =>
        rw [Option.bind_some]
        cases Request.decode context.inputTypes payload <;> rfl
    rw [credit, hnone]
    exact hquiet (counted_hand payload job id hc)
  | gathering id =>
    refine hquiet ?_
    simp only [step, gather]
    cases manager.contexts[id]? with
    | none => rfl
    | some context => cases hb : context.takeBuckets.1 <;> simp only [hb] <;> rfl
  | merging id buckets =>
    simp only [step, merge, record?]
    cases manager.contexts[id]? <;> exact hquiet rfl
  | retiring id outcome =>
    simp only [step, retire, record?]
    cases manager.contexts[id]? with
    | none => exact hquiet rfl
    | some context => exact counted_recordOutcome id context.job outcome
  | failing job error result =>
    simp only [step, Manager.retire_eq, record?]
    cases (manager.table.entry job).active with
    | none => exact hquiet rfl
    | some id => exact counted_recordOutcome id job (.error error)
  | cancelling job =>
    simp only [step, Manager.retire_eq, record?]
    cases (manager.table.entry job).active <;> exact hquiet rfl
  | registering context =>
    rcases registering_or context manager with hr | ⟨failure, hr⟩
    · rw [registering_refused hr]
      exact hquiet rfl
    · rw [registering_entered failure hr]
      exact hquiet rfl
  | announcing job id failure =>
    cases failure with
    | none => exact hquiet rfl
    | some error => exact counted_recordOutcome id job (.error error)
  | stopping | publishing | ended | registered => exact hquiet rfl

theorem Turn.counted (h : task.Turn manager next manager') (hc : counter.IsFate) :
    manager'.counted counter = manager.counted counter + credit counter (task.record? manager) := by
  cases h with
  | step h =>
    have hcounted := counted_step hc task manager
    rwa [h] at hcounted
  | lapse => exact (UInt64.add_zero _).symm

end Task

namespace System

theorem Runs.counted {start s : System} {history : History} {counter : Counter}
    (h : start.Runs history s) (hstart : start.Starts) (hc : counter.IsFate) :
    s.manager.counted counter =
      UInt64.ofNat (history.countP fun record => record.counter? = some counter) := by
  induction h with
  | start =>
    obtain ⟨waitMillis, retentionMillis, minimum, sink, hm⟩ := hstart.manager
    rw [hm]
    rfl
  | tick now _ _ ih => exact ih
  | @act history s s' i task _ hi hact ih =>
    obtain ⟨hi', hturn⟩ := hact
    cases hi'.symm.trans hi
    rw [hturn.counted hc, ih, List.countP_append, UInt64.ofNat_add]
    congr 1
    unfold Task.credit
    cases task.record? s.manager with
    | none => rfl
    | some record =>
      rw [Option.bind_some, Option.toList_some, List.countP_singleton]
      by_cases hcount : record.counter? = some counter <;> simp [hcount]

end System

end ShardQuery
