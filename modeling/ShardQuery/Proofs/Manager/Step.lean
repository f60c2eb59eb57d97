import ShardQuery.Job.Manager
import ShardQuery.Proofs.Context.Latches
import ShardQuery.Proofs.Manager.Table
/-!
# One step of a task

What a step of a task may do to the manager that all tasks share, `Task.Effect`, and
where it may lead the task itself, `Task.Leads`. Of telemetry and of written rows
nothing is said.
-/

namespace ShardQuery

namespace MergeContext

theorem job_takeBuckets (context : MergeContext) : context.takeBuckets.2.job = context.job := by
  unfold takeBuckets
  split <;> rfl

theorem job_merge (context : MergeContext) (buckets : List Bucket) (sink : Sink) :
    (context.merge buckets sink).2.1.job = context.job := by
  unfold merge takeChain
  cases context.chain <;> rfl

theorem job_publish (context : MergeContext) (outcome : JobOutcome) :
    (context.publish outcome).job = context.job := by
  unfold publish
  split <;> rfl

theorem job_fail (context : MergeContext) (error : EngineError) :
    (context.fail error).job = context.job :=
  context.raiseCancel.job_publish _

end MergeContext

namespace Manager

abbrev registration (context : MergeContext) (manager : Manager) : Registration × JobTable :=
  manager.table.register manager.now manager.retentionMillis context.job manager.contexts.length

abbrev retired (job : JobId) (manager : Manager) : JobTable :=
  (manager.table.retire manager.now manager.retentionMillis job).2

abbrev givenUp (job : JobId) (manager : Manager) : JobTable :=
  (manager.table.giveUp manager.now manager.retentionMillis job
    (.contextTimeout job manager.waitMillis)).2

def jobAt (manager : Manager) (id : ContextId) : Option JobId :=
  manager.contexts[id]?.map (·.job)

theorem retire_eq (job : JobId) (manager : Manager) :
    manager.retire job =
      ((manager.table.entry job).active, { manager with table := manager.retired job }) := rfl

theorem recordOutcome_eq (job : JobId) (outcome : JobOutcome) (manager : Manager) :
    ∃ telemetry, manager.recordOutcome job outcome = { manager with telemetry } := by
  cases outcome <;> exact ⟨_, rfl⟩

end Manager

namespace Task

def job? (manager : Manager) : Task → Option JobId
  | arrived payload => (Request.Header.peek payload).toOption.map (·.job)
  | looking _ job _ _ _ | waiting _ job _ _ | expired _ job | handing _ job _ => some job
  | failing job _ _ | cancelling job | announcing job _ _ => some job
  | gathering id | merging id _ | retiring id _ | stopping id _ _ | publishing id _ _ =>
    manager.jobAt id
  | registering context => some context.job
  | ended _ | registered _ => none

def context? : Task → Option ContextId
  | handing _ _ id | gathering id | merging id _ | retiring id _ | stopping id _ _
  | publishing id _ _ | announcing _ id _ => some id
  | _ => none

def retires? (manager : Manager) : Task → Option JobId
  | failing job _ _ | cancelling job => some job
  | retiring id _ => manager.jobAt id
  | registering context =>
    match (manager.registration context).1 with
    | .failed _ => some context.job
    | _ => none
  | _ => none

inductive Effect (manager : Manager) : Task → Manager → Prop where
  | tells (task : Task) (generation : Nat) (telemetry : Telemetry) (sink : Sink) :
      Effect manager task { manager with generation, telemetry, sink }
  | works (task : Task) (id : ContextId) (f : MergeContext → MergeContext) (generation : Nat)
      (telemetry : Telemetry) (sink : Sink) : task.context? = some id →
      (∀ context, manager.contexts[id]? = some context → (f context).job = context.job) →
      Effect manager task
        { manager with contexts := manager.contexts.modify id f, generation, telemetry, sink }
  | retires (task : Task) (job : JobId) (telemetry : Telemetry) :
      task.retires? manager = some job →
      Effect manager task { manager with table := manager.retired job, telemetry }
  | givesUp (payload : List UInt8) (job : JobId) (telemetry : Telemetry) :
      Effect manager (expired payload job) { manager with table := manager.givenUp job, telemetry }
  | refuses (context : MergeContext) : (manager.registration context).1 = .refused →
      Effect manager (registering context)
        { manager with table := (manager.registration context).2 }
  | enters (context : MergeContext) (failure : Option EngineError) :
      (manager.registration context).1 = failure.elim .active .failed →
      Effect manager (registering context)
        { manager with
          table := (manager.registration context).2
          contexts := manager.contexts ++ [context] }

variable {manager : Manager} {task next : Task} {job : JobId} {id : ContextId}

-- ---------------------------------------------------------------------------
-- The manager after a step
-- ---------------------------------------------------------------------------

theorem effect_note {manager' : Manager} (task : Task)
    (h : ∃ telemetry, manager' = { manager with telemetry }) : Effect manager task manager' := by
  obtain ⟨telemetry, rfl⟩ := h
  exact .tells task manager.generation telemetry manager.sink

theorem Effect.becomes {context after : MergeContext} (hid : task.context? = some id)
    (hc : manager.contexts[id]? = some context) (hjob : after.job = context.job)
    (telemetry : Telemetry) (sink : Sink) :
    Effect manager task
      { manager with contexts := manager.contexts.modify id fun _ => after, telemetry, sink } := by
  refine .works task id _ manager.generation telemetry sink hid fun other h => ?_
  rw [hc, Option.some.injEq] at h
  rw [hjob, h]

theorem effect_hand (payload : List UInt8) (job : JobId) (id : ContextId) (manager : Manager) :
    Effect manager (handing payload job id) (hand payload job id manager).2 := by
  unfold hand
  cases hc : manager.contexts[id]? with
  | none => exact effect_note _ ⟨_, rfl⟩
  | some context =>
    cases hd : Request.decode context.inputTypes payload with
    | error error =>
      simp only [hd]
      exact effect_note _ ⟨_, rfl⟩
    | ok request =>
      have hjob := (MergeContext.untouched_accept context request).job
      simp only [hd]
      cases request.payload <;> simp only <;> split <;> exact .becomes rfl hc hjob _ _

theorem registering_refused {context : MergeContext}
    (h : (manager.registration context).1 = .refused) :
    (registering context).step manager =
      (registered (.error (.invalidPlan s!"job {context.job} is already registered")),
        { manager with table := (manager.registration context).2 }) := by
  simp only [step, Manager.enter, h]

theorem registering_entered {context : MergeContext} (failure : Option EngineError)
    (h : (manager.registration context).1 = failure.elim .active .failed) :
    (registering context).step manager =
      (announcing context.job manager.contexts.length failure,
        { manager with
          table := (manager.registration context).2
          contexts := manager.contexts ++ [context] }) := by
  cases failure <;> simp only [step, Manager.enter, h, Option.elim]

theorem announcing_failure (job : JobId) (id : ContextId) (error : EngineError)
    (manager : Manager) : ∃ telemetry, (announcing job id (some error)).step manager =
      (registered (.ok id),
        { manager with
          generation := manager.generation + 1
          telemetry
          contexts := manager.contexts.modify id (MergeContext.fail error) }) :=
  ⟨_, rfl⟩

theorem registering_or (context : MergeContext) (manager : Manager) :
    (manager.registration context).1 = .refused ∨
      ∃ failure : Option EngineError,
        (manager.registration context).1 = failure.elim .active .failed := by
  cases (manager.registration context).1 with
  | refused => exact .inl rfl
  | failed error => exact .inr ⟨some error, rfl⟩
  | active => exact .inr ⟨none, rfl⟩

theorem effect_step (task : Task) (manager : Manager) :
    Effect manager task (task.step manager).2 := by
  cases task with
  | arrived payload =>
    simp only [step, arrive]
    split <;> exact effect_note _ ⟨_, rfl⟩
  | looking payload job deadline seen isDeferred =>
    simp only [step, look]
    split
    · cases isDeferred <;> exact effect_note _ ⟨_, rfl⟩
    · exact effect_note _ ⟨_, rfl⟩
    · cases isDeferred <;> exact effect_note _ ⟨_, rfl⟩
  | waiting payload job deadline seen =>
    simp only [step, wait]
    split_ifs <;> exact effect_note _ ⟨_, rfl⟩
  | expired payload job =>
    simp only [step, giveUp]
    split <;> exact .givesUp payload job _
  | handing payload job id => exact effect_hand payload job id manager
  | gathering id =>
    simp only [step, gather]
    cases hc : manager.contexts[id]? with
    | none => exact effect_note _ ⟨_, rfl⟩
    | some context =>
      cases hb : context.takeBuckets.1 <;> simp only [hb] <;>
        exact .becomes rfl hc context.job_takeBuckets _ _
  | merging id buckets =>
    simp only [step, merge]
    cases hc : manager.contexts[id]? with
    | none => exact effect_note _ ⟨_, rfl⟩
    | some context => exact .becomes rfl hc (context.job_merge buckets manager.sink) _ _
  | retiring id outcome =>
    simp only [step, retire]
    cases hc : manager.contexts[id]? with
    | none => exact effect_note _ ⟨_, rfl⟩
    | some context =>
      obtain ⟨telemetry, hm⟩ :=
        Manager.recordOutcome_eq context.job outcome (manager.retire context.job).2
      simp only [hm]
      exact .retires _ context.job telemetry (by simp [retires?, Manager.jobAt, hc])
  | failing job error result =>
    simp only [step, Manager.retire_eq]
    cases (manager.table.entry job).active with
    | none => exact .retires _ job manager.telemetry rfl
    | some id => exact .retires _ job _ rfl
  | cancelling job =>
    simp only [step, Manager.retire_eq]
    cases (manager.table.entry job).active with
    | none => exact .retires _ job manager.telemetry rfl
    | some id => exact .retires _ job _ rfl
  | stopping id error result => exact .works _ id _ _ _ _ rfl fun _ _ => rfl
  | publishing id outcome result =>
    exact .works _ id _ _ _ _ rfl fun context _ => context.job_publish outcome
  | ended result => exact effect_note _ ⟨_, rfl⟩
  | registering context =>
    rcases registering_or context manager with hr | ⟨failure, hr⟩
    · rw [registering_refused hr]
      exact .refuses context hr
    · rw [registering_entered failure hr]
      exact .enters context failure hr
  | announcing job id failure =>
    cases failure with
    | none => exact .tells _ _ _ _
    | some error => exact .works _ id _ _ _ _ rfl fun context _ => context.job_fail error
  | registered result => exact effect_note _ ⟨_, rfl⟩

theorem job?_of_retires? (h : task.retires? manager = some job) : task.job? manager = some job := by
  cases task with
  | failing | cancelling | retiring => exact h
  | registering context =>
    simp only [retires?] at h
    split at h
    · exact h
    · cases h
  | _ => cases h

namespace Effect

variable {manager' : Manager} (h : Effect manager task manager')

include h

theorem clock : manager'.now = manager.now ∧ manager'.waitMillis = manager.waitMillis ∧
    manager'.retentionMillis = manager.retentionMillis := by
  cases h <;> exact ⟨rfl, rfl, rfl⟩

theorem distinct (hd : manager.table.Distinct) : manager'.table.Distinct := by
  cases h with
  | tells | works => exact hd
  | retires => exact hd.retire
  | givesUp => exact hd.giveUp _
  | refuses | enters => exact hd.register _

theorem entry (hd : manager.table.Distinct) (job : JobId) :
    (manager.table.entry job).Next manager.now manager.retentionMillis
      (manager'.table.entry job) := by
  cases h with
  | tells | works => exact .kept
  | retires => exact JobTable.next_retire hd _ job
  | givesUp => exact JobTable.next_giveUp hd _ job
  | refuses | enters => exact JobTable.next_register hd _ job

theorem jobAt (hjob : manager.jobAt id = some job) : manager'.jobAt id = some job := by
  cases h with
  | tells | retires | givesUp | refuses => exact hjob
  | works _ at' f _ _ _ _ hf =>
    obtain ⟨context, hc, rfl⟩ := Option.map_eq_some_iff.mp hjob
    by_cases hid : at' = id
    · subst hid
      simp [Manager.jobAt, hc, hf context hc]
    · simp [Manager.jobAt, hc, hid]
  | enters context =>
    obtain ⟨old, hc, rfl⟩ := Option.map_eq_some_iff.mp hjob
    have hlt := (List.getElem?_eq_some_iff.mp hc).1
    simp [Manager.jobAt, List.getElem?_append_left hlt, hc]

theorem active (hd : manager.table.Distinct) (ha : (manager'.table.entry job).active = some id) :
    (manager.table.entry job).active = some id ∨
      ∃ context, task = registering context ∧ context.job = job ∧
        manager'.jobAt id = some job := by
  cases h with
  | tells | works => exact .inl ha
  | retires => exact .inl (JobTable.active_retire hd ha)
  | givesUp => exact .inl (JobTable.active_giveUp hd _ ha)
  | refuses context hr =>
    refine (JobTable.active_register hd ha).imp_right fun ⟨_, _, hactive⟩ => ?_
    rw [hactive] at hr
    cases hr
  | enters context =>
    refine (JobTable.active_register hd ha).imp_right ?_
    rintro ⟨rfl, rfl, -⟩
    exact ⟨context, rfl, rfl, by simp [Manager.jobAt]⟩

theorem inactive (hd : manager.table.Distinct) (ha : (manager.table.entry job).active = none)
    (hr : ∀ context, task = registering context → context.job ≠ job) :
    (manager'.table.entry job).active = none := by
  rw [Option.eq_none_iff_forall_ne_some]
  intro id hid
  rcases h.active hd hid with hold | ⟨context, htask, hjob, -⟩
  · simp [ha] at hold
  · exact hr context htask hjob

theorem contexts {context : MergeContext} (hid : task.context? ≠ some id)
    (hc : manager.contexts[id]? = some context) : manager'.contexts[id]? = some context := by
  cases h with
  | tells | retires | givesUp | refuses => exact hc
  | works _ own f _ _ _ hown =>
    have hne : own ≠ id := by
      rintro rfl
      exact hid hown
    simpa [hne] using hc
  | enters => rw [List.getElem?_append_left (List.getElem?_eq_some_iff.mp hc).1, hc]

end Effect

-- ---------------------------------------------------------------------------
-- The task after a step
-- ---------------------------------------------------------------------------

inductive Leads (manager : Manager) (task : Task) : Task → Prop where
  | ends (result : DeliveryResult) : Leads manager task (ended result)
  | answers (result : Except EngineError ContextId) : Leads manager task (registered result)
  | looks (payload : List UInt8) (job : JobId) (deadline seen : Nat) (isDeferred : Bool) :
      task.job? manager = some job →
      Leads manager task (looking payload job deadline seen isDeferred)
  | waits (payload : List UInt8) (job : JobId) (deadline seen : Nat) :
      task.job? manager = some job → Leads manager task (waiting payload job deadline seen)
  | expires (payload : List UInt8) (job : JobId) :
      task.job? manager = some job → Leads manager task (expired payload job)
  | finds (payload : List UInt8) (job : JobId) (id : ContextId) :
      task.job? manager = some job → (manager.table.entry job).active = some id →
      Leads manager task (handing payload job id)
  | gathers (id : ContextId) : task.context? = some id → Leads manager task (gathering id)
  | merges (id : ContextId) (buckets : List Bucket) :
      task.context? = some id → Leads manager task (merging id buckets)
  | retires (id : ContextId) (outcome : JobOutcome) :
      task.context? = some id → Leads manager task (retiring id outcome)
  | publishes (id : ContextId) (outcome : JobOutcome) (result : DeliveryResult) :
      task.context? = some id → Leads manager task (publishing id outcome result)
  | fails (payload : List UInt8) (job : JobId) (id : ContextId) (error : EngineError)
      (result : DeliveryResult) :
      task = handing payload job id → Leads manager task (failing job error result)
  | stops (job : JobId) (id : ContextId) (error : EngineError) (result : DeliveryResult) :
      task.job? manager = some job → (manager.table.entry job).active = some id →
      Leads manager task (stopping id error result)
  | announces (context : MergeContext) (failure : Option EngineError) :
      task = registering context →
      (manager.registration context).1 = failure.elim .active .failed →
      Leads manager task (announcing context.job manager.contexts.length failure)

theorem leads_hand (payload : List UInt8) (job : JobId) (id : ContextId) (manager : Manager) :
    Leads manager (handing payload job id) (hand payload job id manager).1 := by
  unfold hand
  cases hc : manager.contexts[id]? with
  | none => exact .ends _
  | some context =>
    cases hd : Request.decode context.inputTypes payload with
    | error error =>
      simp only [hd]
      exact .fails payload job id error _ rfl
    | ok request =>
      simp only [hd]
      split
      · exact .ends _
      · exact .gathers id rfl
      · exact .ends _
      · exact .fails payload job id _ _ rfl
      · exact .fails payload job id _ _ rfl

theorem leads_step (task : Task) (manager : Manager) :
    Leads manager task (task.step manager).1 := by
  cases task with
  | arrived payload =>
    simp only [step, arrive]
    cases hp : Request.Header.peek payload with
    | ok header => exact .looks payload header.job _ _ _ (by simp [job?, hp, Except.toOption])
    | error error => exact .ends _
  | looking payload job deadline seen isDeferred =>
    simp only [step, look]
    cases hs : manager.table.status job with
    | active id => exact .finds payload job id rfl (JobTable.status_eq_active.mp hs)
    | finished => exact .ends _
    | unknown => exact .waits payload job deadline seen rfl
  | waiting payload job deadline seen =>
    simp only [step, wait]
    split_ifs
    · exact .looks payload job deadline _ true rfl
    · exact .expires payload job rfl
    · exact .waits payload job deadline seen rfl
  | expired payload job =>
    simp only [step, giveUp, JobTable.giveUp_fst]
    cases hs : manager.table.status job with
    | active id => exact .finds payload job id rfl (JobTable.status_eq_active.mp hs)
    | finished => exact .ends _
    | unknown => exact .ends _
  | handing payload job id => exact leads_hand payload job id manager
  | gathering id =>
    simp only [step, gather]
    cases hc : manager.contexts[id]? with
    | none => exact .ends _
    | some context =>
      cases hb : context.takeBuckets.1 with
      | ok buckets =>
        simp only [hb]
        exact .merges id buckets rfl
      | error error =>
        simp only [hb]
        exact .retires id _ rfl
  | merging id buckets =>
    simp only [step, merge]
    cases hc : manager.contexts[id]? with
    | none => exact .ends _
    | some context => exact .retires id _ rfl
  | retiring id outcome =>
    simp only [step, retire]
    cases hc : manager.contexts[id]? with
    | none => exact .ends _
    | some context => exact .publishes id outcome _ rfl
  | failing job error result =>
    simp only [step, Manager.retire_eq]
    cases ha : (manager.table.entry job).active with
    | none => exact .ends result
    | some id => exact .stops job id error result rfl ha
  | cancelling job =>
    simp only [step, Manager.retire_eq]
    cases ha : (manager.table.entry job).active with
    | none => exact .ends _
    | some id => exact .stops job id .cancelled _ rfl ha
  | stopping id error result => exact .publishes id _ result rfl
  | publishing id outcome result => exact .ends result
  | ended result => exact .ends result
  | registering context =>
    rcases registering_or context manager with hr | ⟨failure, hr⟩
    · rw [registering_refused hr]
      exact .answers _
    · rw [registering_entered failure hr]
      exact .announces context failure rfl hr
  | announcing job id failure => exact .answers _
  | registered result => exact .answers result

namespace Leads

variable (h : Leads manager task next)

include h

theorem context? (hid : next.context? = some id) :
    task.context? = some id ∨
      (∃ job, task.job? manager = some job ∧ (manager.table.entry job).active = some id) ∨
      id = manager.contexts.length := by
  cases h with
  | finds payload job active hjob ha =>
    cases hid
    exact .inr (.inl ⟨job, hjob, ha⟩)
  | stops job active error result hjob ha =>
    cases hid
    exact .inr (.inl ⟨job, hjob, ha⟩)
  | gathers _ hc | merges _ _ hc | retires _ _ hc | publishes _ _ _ hc =>
    cases hid
    exact .inl hc
  | announces =>
    cases hid
    exact .inr (.inr rfl)
  | _ => cases hid

end Leads

end Task

end ShardQuery
