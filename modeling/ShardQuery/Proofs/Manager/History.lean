import ShardQuery.Proofs.Manager.Race
/-!
# What happens in a run

Each turn of a task is one of a few moves, `Task.Moves`: what it leaves in the history,
where it leads the task, and what becomes of the contexts and the table. A run keeps
its `History`: the answers to requests, the outcomes of merges, and how jobs were
ended.
-/

namespace ShardQuery

/-- What a step came to, where it matters for the job of a context. -/
inductive Record where
  | answered (id : ContextId) (answer : Except EngineError Acceptance)
  /-- The chain has come to an outcome. -/
  | merged (id : ContextId) (outcome : JobOutcome)
  /-- The job was retired and counted by its merge. -/
  | completed (id : ContextId) (outcome : JobOutcome)
  /-- The job was retired and counted because of an error. -/
  | failed (id : ContextId) (error : EngineError)
  /-- The job was retired because it was cancelled. -/
  | cancelled (id : ContextId)
deriving DecidableEq

abbrev History := List Record

def Record.id : Record → ContextId
  | answered id _ | merged id _ | completed id _ | failed id _ | cancelled id => id

theorem modify_eq_set {α : Type} {xs : List α} {i : Nat} {x : α} (h : xs[i]? = some x)
    (f : α → α) : xs.modify i f = xs.set i (f x) := by
  obtain ⟨hi, rfl⟩ := List.getElem?_eq_some_iff.mp h
  refine List.ext_getElem? fun j => ?_
  by_cases hij : i = j
  · subst hij
    simp [hi]
  · simp [hij]

theorem set_same {α : Type} {xs : List α} {i : Nat} {x : α} (h : xs[i]? = some x) :
    xs.set i x = xs := by
  obtain ⟨hi, rfl⟩ := List.getElem?_eq_some_iff.mp h
  exact List.set_getElem_self hi

namespace MergeContext

variable {context : MergeContext} {outcome other : JobOutcome}

theorem merge_context (context : MergeContext) (buckets : List Bucket) (sink : Sink) :
    (context.merge buckets sink).2.1 = { context with chain := none } := by
  unfold merge takeChain
  cases context with
  | mk _ _ _ _ _ _ chain => cases chain <;> rfl

theorem outcome_merge {chain : Chain} (hchain : context.chain = some chain)
    (buckets : List Bucket) (sink : Sink) : (context.merge buckets sink).1 =
      (chain.execute .cluster context.cancelled (Bucket.concat buckets) sink).1 := by
  unfold merge takeChain
  rw [hchain]

theorem not_isOpen_of_merging (h : context.merging = true) : ¬ context.IsOpen :=
  fun hopen => Bool.false_ne_true (hopen.not_merging.symm.trans h)

theorem not_isOpen_of_closed (h : context.closed = true) : ¬ context.IsOpen :=
  fun hopen => Bool.false_ne_true (hopen.not_closed.symm.trans h)

theorem closed_publish (context : MergeContext) (outcome : JobOutcome) :
    (context.publish outcome).closed = true := by
  unfold publish
  split
  · assumption
  · rfl

theorem merging_publish (context : MergeContext) (outcome : JobOutcome) :
    (context.publish outcome).merging = context.merging := by
  unfold publish
  split <;> rfl

theorem chain_publish (context : MergeContext) (outcome : JobOutcome) :
    (context.publish outcome).chain = context.chain := by
  unfold publish
  split <;> rfl

theorem cancelled_publish (context : MergeContext) (outcome : JobOutcome) :
    (context.publish outcome).cancelled = context.cancelled := by
  unfold publish
  split <;> rfl

theorem outcome_publish (h : (context.publish other).outcome = some outcome) :
    context.outcome = some outcome ∨ other = outcome := by
  unfold publish at h
  split at h
  · exact .inl h
  · exact .inr (Option.some.inj h)

end MergeContext

namespace Task

variable {manager manager' : Manager} {task next : Task} {context after : MergeContext}
  {id : ContextId} {job : JobId} {record : Option Record}

def payload? : Task → Option (List UInt8)
  | arrived payload | looking payload _ _ _ _ | waiting payload _ _ _ | expired payload _
  | handing payload _ _ => some payload
  | _ => none

def record? (manager : Manager) : Task → Option Record
  | handing payload _ id =>
    manager.contexts[id]?.bind fun context =>
      (Request.decode context.inputTypes payload).toOption.map fun request =>
        .answered id (context.accept request).1
  | merging id buckets =>
    manager.contexts[id]?.map fun context => .merged id (context.merge buckets manager.sink).1
  | retiring id outcome => manager.contexts[id]?.map fun _ => .completed id outcome
  | failing job error _ => (manager.table.entry job).active.map (.failed · error)
  | cancelling job => (manager.table.entry job).active.map .cancelled
  | announcing _ id failure => failure.map (.failed id)
  | _ => none

def replied (job : JobId) (id : ContextId) : Except EngineError Acceptance → Task
  | .ok .pending => ended (.ok .delivered)
  | .ok .ready => gathering id
  | .ok .closed => ended (.ok .discarded)
  | .error (.remote message) => failing job (.remote message) (.ok .completed)
  | .error error => failing job error (.error error)

-- ---------------------------------------------------------------------------
-- Moves
-- ---------------------------------------------------------------------------

/-- A turn of a task that works on a context and does not retire its job: the record, the next
task, and the context afterwards. -/
inductive Works (sink : Sink) (id : ContextId) (context : MergeContext) :
    Task → Option Record → Task → MergeContext → Prop where
  | malformed {payload : List UInt8} {job : JobId} {error : EngineError} :
      Request.decode context.inputTypes payload = .error error →
      Works sink id context (handing payload job id) none (failing job error (.error error)) context
  | answers {payload : List UInt8} {job : JobId} {request : Request} :
      Request.decode context.inputTypes payload = .ok request →
      Works sink id context (handing payload job id)
        (some (.answered id (context.accept request).1))
        (replied job id (context.accept request).1) (context.accept request).2
  | gathers {buckets : List Bucket} {after : MergeContext} :
      context.takeBuckets = (.ok buckets, after) →
      Works sink id context (gathering id) none (merging id buckets) after
  | gathersNone {error : EngineError} {after : MergeContext} :
      context.takeBuckets = (.error error, after) →
      Works sink id context (gathering id) none (retiring id (.error error)) after
  | merges (buckets : List Bucket) :
      Works sink id context (merging id buckets)
        (some (.merged id (context.merge buckets sink).1))
        (retiring id (context.merge buckets sink).1) (context.merge buckets sink).2.1
  | stops (error : EngineError) (result : DeliveryResult) :
      Works sink id context (stopping id error result) none (publishing id (.error error) result)
        context.raiseCancel
  | publishes (outcome : JobOutcome) (result : DeliveryResult) :
      Works sink id context (publishing id outcome result) none (ended result)
        (context.publish outcome)
  | announces (job : JobId) :
      Works sink id context (announcing job id none) none (registered (.ok id)) context
  | announcesFailure (job : JobId) (error : EngineError) :
      Works sink id context (announcing job id (some error)) (some (.failed id error))
        (registered (.ok id)) (context.fail error)

inductive Seeks (manager : Manager) : Task → Task → Prop where
  | arrives {payload : List UInt8} {header : Request.Header} (deadline seen : Nat) :
      Request.Header.peek payload = .ok header →
      Seeks manager (arrived payload) (looking payload header.job deadline seen false)
  | malformed {payload : List UInt8} {error : EngineError} :
      Request.Header.peek payload = .error error →
      Seeks manager (arrived payload) (ended (.error error))
  | waits (payload : List UInt8) {job : JobId} (deadline seen : Nat) (isDeferred : Bool) :
      manager.table.status job = .unknown →
      Seeks manager (looking payload job deadline seen isDeferred)
        (waiting payload job deadline seen)
  | goesOn (payload : List UInt8) (job : JobId) (deadline seen : Nat) :
      Seeks manager (waiting payload job deadline seen) (waiting payload job deadline seen)
  | again (payload : List UInt8) (job : JobId) (deadline seen now : Nat) :
      Seeks manager (waiting payload job deadline seen) (looking payload job deadline now true)
  | lapses (payload : List UInt8) (job : JobId) (deadline seen : Nat) :
      Seeks manager (waiting payload job deadline seen) (expired payload job)
  | late {task : Task} {job : JobId} : task.LooksFor job → manager.table.status job = .finished →
      Seeks manager task (ended (.ok .discarded))

inductive Retires (job : JobId) : Task → Prop where
  | fail (error : EngineError) (result : DeliveryResult) : Retires job (failing job error result)
  | cancel : Retires job (cancelling job)

/-- A turn of a task: its record, the next task, and the contexts and the table afterwards. -/
inductive Moves (manager : Manager) :
    Task → Option Record → Task → List MergeContext → JobTable → Prop where
  | stays (result : DeliveryResult) :
      Moves manager (ended result) none (ended result) manager.contexts manager.table
  | known (result : Except EngineError ContextId) :
      Moves manager (registered result) none (registered result) manager.contexts manager.table
  | seeks {task next : Task} : Seeks manager task next →
      Moves manager task none next manager.contexts manager.table
  | finds {task : Task} {payload : List UInt8} {job : JobId} {id : ContextId} :
      task.LooksFor job → task.payload? = some payload →
      (manager.table.entry job).active = some id →
      Moves manager task none (handing payload job id) manager.contexts manager.table
  | givesUp {payload : List UInt8} {job : JobId} : manager.table.status job = .unknown →
      Moves manager (expired payload job) none
        (ended (.error (.contextTimeout job manager.waitMillis))) manager.contexts
        (manager.givenUp job)
  | works {task : Task} {record : Option Record} {next : Task} {id : ContextId}
      {context after : MergeContext} : task.context? = some id →
      manager.contexts[id]? = some context →
      Works manager.sink id context task record next after → after.job = context.job →
      Moves manager task record next (manager.contexts.set id after) manager.table
  | completes {id : ContextId} {context : MergeContext} (outcome : JobOutcome) :
      manager.contexts[id]? = some context →
      Moves manager (retiring id outcome) (some (.completed id outcome))
        (publishing id outcome (.ok .completed)) manager.contexts (manager.retired context.job)
  | fails {job : JobId} {id : ContextId} (error : EngineError) (result : DeliveryResult) :
      (manager.table.entry job).active = some id →
      Moves manager (failing job error result) (some (.failed id error)) (stopping id error result)
        manager.contexts (manager.retired job)
  | cancels {job : JobId} {id : ContextId} : (manager.table.entry job).active = some id →
      Moves manager (cancelling job) (some (.cancelled id))
        (stopping id .cancelled (.ok .completed)) manager.contexts (manager.retired job)
  | misses {task : Task} {job : JobId} (result : DeliveryResult) : task.Retires job →
      (manager.table.entry job).active = none →
      Moves manager task none (ended result) manager.contexts (manager.retired job)
  | refused {context : MergeContext} : (manager.registration context).1 = .refused →
      Moves manager (registering context) none
        (registered (.error (.invalidPlan s!"job {context.job} is already registered")))
        manager.contexts (manager.registration context).2
  | enters {context : MergeContext} (failure : Option EngineError) :
      (manager.registration context).1 = failure.elim .active .failed →
      Moves manager (registering context) none
        (announcing context.job manager.contexts.length failure) (manager.contexts ++ [context])
        (manager.registration context).2

theorem moves_works {contexts : List MergeContext} (hid : task.context? = some id)
    (hc : manager.contexts[id]? = some context)
    (hw : Works manager.sink id context task record next after) (hjob : after.job = context.job)
    (hcontexts : contexts = manager.contexts.set id after) :
    Moves manager task record next contexts manager.table :=
  hcontexts ▸ .works hid hc hw hjob

theorem moves_hand (payload : List UInt8) (job : JobId)
    (hc : manager.contexts[id]? = some context) :
    Moves manager (handing payload job id) (record? manager (handing payload job id))
      (hand payload job id manager).1 (hand payload job id manager).2.contexts
      (hand payload job id manager).2.table := by
  cases hd : Request.decode context.inputTypes payload with
  | error error =>
    have hrecord : record? manager (handing payload job id) = none := by
      simp [record?, hc, hd, Except.toOption]
    rw [hrecord]
    simp only [hand, hc, hd]
    exact moves_works rfl hc (.malformed hd) rfl (set_same hc).symm
  | ok request =>
    have hrecord : record? manager (handing payload job id) =
        some (.answered id (context.accept request).1) := by
      simp [record?, hc, hd, Except.toOption]
    have hjob := (MergeContext.untouched_accept context request).job
    have hset := modify_eq_set hc fun _ => (context.accept request).2
    have hanswers : Works manager.sink id context (handing payload job id)
        (some (.answered id (context.accept request).1))
        (replied job id (context.accept request).1) (context.accept request).2 := .answers hd
    rw [hrecord]
    simp only [hand, hc, hd]
    cases ha : (context.accept request).1 with
    | ok acceptance =>
      cases acceptance <;> simp only [ha] at hanswers ⊢ <;> cases request.payload <;>
        exact moves_works rfl hc hanswers hjob hset
    | error error =>
      cases error <;> simp only [ha] at hanswers ⊢ <;> cases request.payload <;>
        exact moves_works rfl hc hanswers hjob hset

theorem moves_look (payload : List UInt8) (job : JobId) (deadline seen : Nat) (isDeferred : Bool)
    (manager : Manager) :
    Moves manager (looking payload job deadline seen isDeferred) none
      (look payload job deadline seen isDeferred manager).1
      (look payload job deadline seen isDeferred manager).2.contexts
      (look payload job deadline seen isDeferred manager).2.table := by
  unfold look
  cases hs : manager.table.status job with
  | active id =>
    cases isDeferred <;> exact .finds (.again ..) rfl (JobTable.status_eq_active.mp hs)
  | finished => exact .seeks (.late (.again ..) hs)
  | unknown => cases isDeferred <;> exact .seeks (.waits payload deadline seen _ hs)

theorem moves_giveUp (payload : List UInt8) (job : JobId) (manager : Manager) :
    Moves manager (expired payload job) none (giveUp payload job manager).1
      (giveUp payload job manager).2.contexts (giveUp payload job manager).2.table := by
  have hknown (h : manager.table.status job ≠ .unknown) :
      manager.table.giveUp manager.now manager.retentionMillis job
        (.contextTimeout job manager.waitMillis) = (manager.table.status job, manager.table) :=
    JobTable.giveUp_known h _
  simp only [giveUp, JobTable.giveUp_fst]
  cases hs : manager.table.status job with
  | active id =>
    simp only [hknown (by simp [hs])]
    exact .finds (.last payload) rfl (JobTable.status_eq_active.mp hs)
  | finished =>
    simp only [hknown (by simp [hs])]
    exact .seeks (.late (.last payload) hs)
  | unknown => exact .givesUp hs

theorem moves_step (hk : task.Knows manager) :
    Moves manager task (task.record? manager) (task.step manager).1
      (task.step manager).2.contexts (task.step manager).2.table := by
  have hcontext {id : ContextId} (hid : task.context? = some id) :
      ∃ context, manager.contexts[id]? = some context := by
    obtain ⟨job, hat, -⟩ := hk id hid
    obtain ⟨context, hc, -⟩ := Option.map_eq_some_iff.mp hat
    exact ⟨context, hc⟩
  cases task with
  | arrived payload =>
    simp only [step, arrive]
    cases hp : Request.Header.peek payload with
    | ok header => exact .seeks (.arrives _ _ hp)
    | error error => exact .seeks (.malformed hp)
  | looking payload job deadline seen isDeferred => exact moves_look ..
  | waiting payload job deadline seen =>
    simp only [step, wait]
    split_ifs
    · exact .seeks (.again payload job deadline seen _)
    · exact .seeks (.lapses payload job deadline seen)
    · exact .seeks (.goesOn payload job deadline seen)
  | expired payload job => exact moves_giveUp payload job manager
  | handing payload job id =>
    obtain ⟨context, hc⟩ := hcontext rfl
    exact moves_hand payload job hc
  | gathering id =>
    obtain ⟨context, hc⟩ := hcontext rfl
    have hset := modify_eq_set hc fun _ => context.takeBuckets.2
    have hjob := context.job_takeBuckets
    simp only [step, gather, hc]
    rcases hb : context.takeBuckets with ⟨error | buckets, after⟩ <;> rw [hb] at hset hjob
    · exact moves_works rfl hc (.gathersNone hb) hjob hset
    · exact moves_works rfl hc (.gathers hb) hjob hset
  | merging id buckets =>
    obtain ⟨context, hc⟩ := hcontext rfl
    have hjob := context.job_merge buckets manager.sink
    simp only [step, merge, record?, hc]
    exact moves_works rfl hc (.merges buckets) hjob (modify_eq_set hc _)
  | retiring id outcome =>
    obtain ⟨context, hc⟩ := hcontext rfl
    obtain ⟨telemetry, hm⟩ :=
      Manager.recordOutcome_eq context.job outcome (manager.retire context.job).2
    simp only [step, retire, record?, hc, hm]
    exact .completes outcome hc
  | failing job error result =>
    simp only [step, Manager.retire_eq, record?]
    cases ha : (manager.table.entry job).active with
    | none => exact .misses result (.fail error result) ha
    | some id => exact .fails error result ha
  | cancelling job =>
    simp only [step, Manager.retire_eq, record?]
    cases ha : (manager.table.entry job).active with
    | none => exact .misses _ .cancel ha
    | some id => exact .cancels ha
  | stopping id error result =>
    obtain ⟨context, hc⟩ := hcontext rfl
    exact moves_works rfl hc (.stops error result) rfl (modify_eq_set hc _)
  | publishing id outcome result =>
    obtain ⟨context, hc⟩ := hcontext rfl
    exact moves_works rfl hc (.publishes outcome result) (context.job_publish outcome)
      (modify_eq_set hc _)
  | ended result => exact .stays result
  | registering context =>
    rcases registering_or context manager with hr | ⟨failure, hr⟩
    · rw [registering_refused hr]
      exact .refused hr
    · rw [registering_entered failure hr]
      exact .enters failure hr
  | announcing job id failure =>
    obtain ⟨context, hc⟩ := hcontext rfl
    cases failure with
    | none => exact moves_works rfl hc (.announces job) rfl (set_same hc).symm
    | some error =>
      exact moves_works rfl hc (.announcesFailure job error) (context.job_fail error)
        (modify_eq_set hc _)
  | registered result => exact .known result

theorem Turn.moves (h : task.Turn manager next manager') (hk : task.Knows manager) :
    Moves manager task (task.record? manager) next manager'.contexts manager'.table := by
  cases h with
  | step h =>
    have hm := moves_step hk
    rwa [h] at hm
  | lapse payload job deadline seen => exact .seeks (.lapses payload job deadline seen)

variable {contexts : List MergeContext} {table : JobTable}

theorem LooksFor.context? (h : task.LooksFor job) : task.context? = none := by
  cases h <;> rfl

theorem Retires.context? (h : task.Retires job) : task.context? = none := by
  cases h <;> rfl

theorem Seeks.context? (h : Seeks manager task next) :
    task.context? = none ∧ next.context? = none := by
  cases h with
  | late hl => exact ⟨hl.context?, rfl⟩
  | _ => exact ⟨rfl, rfl⟩

theorem Moves.of_context? (h : Moves manager task record next contexts table)
    (hid : task.context? = some id) :
    ∃ context, manager.contexts[id]? = some context ∧
      ((∃ after, Works manager.sink id context task record next after ∧
          after.job = context.job ∧ contexts = manager.contexts.set id after ∧
          table = manager.table) ∨
        ∃ outcome, task = retiring id outcome ∧ record = some (.completed id outcome) ∧
          next = publishing id outcome (.ok .completed) ∧ contexts = manager.contexts ∧
          table = manager.retired context.job) := by
  cases h with
  | works hown hc hw hjob =>
    cases hown.symm.trans hid
    exact ⟨_, hc, .inl ⟨_, hw, hjob, rfl, rfl⟩⟩
  | completes outcome hc =>
    cases hid
    exact ⟨_, hc, .inr ⟨outcome, rfl, rfl, rfl, rfl, rfl⟩⟩
  | seeks hseeks => simp [hseeks.context?.1] at hid
  | finds hl => simp [hl.context?] at hid
  | misses _ hr => simp [hr.context?] at hid
  | _ => cases hid

/-- The context of a request answers, or the request fails its job because it cannot be
decoded. -/
theorem Moves.handing {payload : List UInt8}
    (h : Moves manager (handing payload job id) record next contexts table) :
    table = manager.table ∧ ∃ context, manager.contexts[id]? = some context ∧
      ((∃ error, Request.decode context.inputTypes payload = .error error ∧ record = none ∧
          next = failing job error (.error error) ∧ contexts = manager.contexts) ∨
        ∃ request, Request.decode context.inputTypes payload = .ok request ∧
          record = some (.answered id (context.accept request).1) ∧
          next = replied job id (context.accept request).1 ∧
          contexts = manager.contexts.set id (context.accept request).2) := by
  obtain ⟨context, hc, ⟨after, hw, -, hcontexts, htable⟩ | ⟨outcome, htask, -⟩⟩ :=
    h.of_context? rfl
  · refine ⟨htable, context, hc, ?_⟩
    cases hw with
    | malformed hd => exact .inl ⟨_, hd, rfl, rfl, hcontexts.trans (set_same hc)⟩
    | answers hd => exact .inr ⟨_, hd, rfl, rfl, hcontexts⟩
  · cases htask

theorem Moves.active (h : Moves manager task record next contexts table)
    (hd : manager.table.Distinct) (ha : (table.entry job).active = some id) :
    (manager.table.entry job).active = some id ∨
      id = manager.contexts.length ∧ ∃ context, task = registering context ∧
        context.job = job ∧ (manager.registration context).1 = .active := by
  cases h with
  | givesUp => exact .inl (JobTable.active_giveUp hd _ ha)
  | completes | fails | cancels | misses => exact .inl (JobTable.active_retire hd ha)
  | refused | enters =>
    refine (JobTable.active_register hd ha).imp_right fun ⟨hjob, hid, hr⟩ => ?_
    exact ⟨hid, _, rfl, hjob.symm, hr⟩
  | _ => exact .inl ha

theorem Moves.length_le (h : Moves manager task record next contexts table) :
    manager.contexts.length ≤ contexts.length := by
  cases h with
  | works => exact Nat.le_of_eq List.length_set.symm
  | enters => simp
  | _ => exact Nat.le_refl _

theorem Moves.id_lt {r : Record} (h : Moves manager task record next contexts table)
    (hs : manager.Sound) (hr : record = some r) : r.id < manager.contexts.length := by
  have hactive {job : JobId} {id : ContextId} (ha : (manager.table.entry job).active = some id) :
      id < manager.contexts.length := by
    obtain ⟨context, hc, -⟩ := Option.map_eq_some_iff.mp (hs.active job id ha)
    exact (List.getElem?_eq_some_iff.mp hc).1
  cases h with
  | works _ hc hw =>
    have hlt := (List.getElem?_eq_some_iff.mp hc).1
    cases hw <;> cases hr <;> exact hlt
  | completes outcome hc =>
    cases hr
    exact (List.getElem?_eq_some_iff.mp hc).1
  | fails _ _ ha | cancels ha =>
    cases hr
    exact hactive ha
  | _ => cases hr

theorem Moves.context_after (h : Moves manager task record next contexts table)
    (hc : contexts[id]? = some after) :
    manager.contexts[id]? = some after ∨
      (∃ context, manager.contexts[id]? = some context ∧
        Works manager.sink id context task record next after) ∨
      task = registering after := by
  cases h with
  | @works _ _ _ own context changed _ hown hw =>
    rw [List.getElem?_set] at hc
    split at hc
    · rename_i hid
      subst hid
      split at hc
      · cases hc
        exact .inr (.inl ⟨context, hown, hw⟩)
      · cases hc
    · exact .inl hc
  | @enters context =>
    rw [List.getElem?_append] at hc
    split at hc
    · exact .inl hc
    · rw [List.mem_singleton.mp (List.mem_of_getElem? hc)]
      exact .inr (.inr rfl)
  | _ => exact .inl hc

theorem Moves.context_before (h : Moves manager task record next contexts table)
    (hc : manager.contexts[id]? = some context) :
    contexts[id]? = some context ∨
      ∃ after, contexts[id]? = some after ∧
        Works manager.sink id context task record next after := by
  cases h with
  | @works _ _ _ own found changed _ hown hw =>
    by_cases hid : own = id
    · subst hid
      cases hown.symm.trans hc
      exact .inr ⟨changed, List.getElem?_set_self (List.getElem?_eq_some_iff.mp hc).1, hw⟩
    · exact .inl ((List.getElem?_set_ne hid).trans hc)
  | enters =>
    exact .inl ((List.getElem?_append_left (List.getElem?_eq_some_iff.mp hc).1).trans hc)
  | _ => exact .inl hc

end Task

-- ---------------------------------------------------------------------------
-- Runs
-- ---------------------------------------------------------------------------

namespace System

inductive Runs (start : System) : History → System → Prop where
  | start : Runs start [] start
  | act {history : History} {s s' : System} {i : Nat} {task : Task} : Runs start history s →
      s.tasks[i]? = some task → s.Acts i s' →
      Runs start (history ++ (task.record? s.manager).toList) s'
  | tick {history : History} {s : System} (now : Nat) : Runs start history s →
      s.manager.now ≤ now → Runs start history ⟨{ s.manager with now }, s.tasks⟩

variable {start s s' : System} {history : History} {i : Nat} {task : Task}

theorem Acts.moves (h : s.Acts i s') (hs : s.Sound) (hi : s.tasks[i]? = some task) :
    ∃ next, task.Turn s.manager next s'.manager ∧
      Task.Moves s.manager task (task.record? s.manager) next s'.manager.contexts
        s'.manager.table ∧ s'.tasks = s.tasks.set i next := by
  obtain ⟨hi', hturn⟩ := h
  cases hi'.symm.trans hi
  exact ⟨_, hturn, hturn.moves (hs.tasks _ (List.mem_of_getElem? hi)), rfl⟩

theorem Runs.reaches (h : start.Runs history s) : start.Reaches s := by
  induction h with
  | start => exact .refl
  | act _ _ hact ih => exact ih.tail (.act _ hact)
  | tick now _ hle ih => exact ih.tail (.tick now hle)

theorem Reaches.exists_runs (h : start.Reaches s) : ∃ history, start.Runs history s := by
  induction h with
  | refl => exact ⟨[], .start⟩
  | tail _ hstep ih =>
    obtain ⟨history, hruns⟩ := ih
    cases hstep with
    | act i hact =>
      obtain ⟨task, _, htask, -⟩ := hact.exists_turn
      exact ⟨_, hruns.act htask hact⟩
    | tick now hle => exact ⟨_, hruns.tick now hle⟩

-- ---------------------------------------------------------------------------
-- Runs on given systems
-- ---------------------------------------------------------------------------

def play : List Nat → System → History × System
  | [], s => ([], s)
  | i :: rest, s =>
    let (history, last) := play rest (s.move i)
    ((s.tasks[i]?.bind (·.record? s.manager)).toList ++ history, last)

theorem runs_play_append (moves : List Nat) (h : start.Runs history s) :
    start.Runs (history ++ (s.play moves).1) (s.play moves).2 := by
  induction moves generalizing s history with
  | nil => simpa [play] using h
  | cons i rest ih =>
    cases hi : s.tasks[i]? with
    | none =>
      have hmove : s.move i = s := by simp [move, hi]
      simpa [play, hi, hmove] using ih h
    | some task => simpa [play, hi] using ih (h.act hi (acts_move hi))

theorem runs_play (moves : List Nat) (start : System) :
    start.Runs (start.play moves).1 (start.play moves).2 :=
  runs_play_append moves .start

def lastRows : List UInt8 :=
  1 :: JobId.nil.bytes ++ [1, 0, 0, 1, 1] ++
    Wire.uint32 (Wire.checksum (1 :: JobId.nil.bytes ++ [1, 0, 0, 1, 1]))

theorem decode_lastRows : Request.decode [.long] lastRows =
    .ok ⟨.nil, 0, 0, true, .rows (.materialized [])⟩ := by
  rw [Request.decode, lastRows, Request.verifiedBody_eq_ok.mpr rfl]
  rfl

theorem peek_lastRows : Request.Header.peek lastRows = .ok ⟨.nil, true, false, 0, 0, 1⟩ := by
  rw [Request.Header.peek, lastRows, Request.verifiedBody_eq_ok.mpr rfl]
  rfl

theorem step_lastRows (manager : Manager) : Task.step (.arrived lastRows) manager =
    (.looking lastRows .nil (manager.now + manager.waitMillis) manager.generation false,
      manager.increment .requestsReceived) := by
  simp only [Task.step, Task.arrive, peek_lastRows]
  rfl

end System

end ShardQuery
