import ShardQuery.Proofs.Manager.Runs
/-!
# Requests that look for their job

A request looks for its job when it comes, after each registration, and for the last
time when it has waited too long. It is handed to the context of the job, discarded
because the job has ended, or gives up and leaves its error in the table.
-/

namespace ShardQuery

theorem MergeContext.accept_error {context : MergeContext} {request : Request} {error : EngineError}
    (h : (context.accept request).1 = .error error) :
    (∃ message, error = .remote message) ∨ ∃ reason, error = refusal context.job reason := by
  by_cases hopen : context.IsOpen
  case neg =>
    rw [accept_shut hopen] at h
    cases h
  cases hp : request.payload with
  | failure message =>
    rw [accept_failure hopen hp] at h
    cases h
    exact .inl ⟨message, rfl⟩
  | rows bucket =>
    have ha := accept_rows context hp
    rw [h] at ha
    generalize (context.accept request).2 = after at ha
    cases ha <;> exact .inr ⟨_, rfl⟩

def EngineError.IsContextTimeout (error : EngineError) : Prop :=
  ∃ job waitedMillis, error = .contextTimeout job waitedMillis

namespace Task

variable {manager manager' : Manager} {task next : Task} {job : JobId} {payload : List UInt8}

inductive LooksFor (job : JobId) : Task → Prop where
  | again (payload : List UInt8) (deadline seen : Nat) (isDeferred : Bool) :
      LooksFor job (looking payload job deadline seen isDeferred)
  | last (payload : List UInt8) : LooksFor job (expired payload job)

theorem Turn.discarded (h : task.Turn manager next manager') (hl : task.LooksFor job)
    (hf : manager.table.status job = .finished) :
    next = ended (.ok .discarded) ∧ manager'.contexts = manager.contexts := by
  cases h with
  | lapse => cases hl
  | step h =>
    cases hl with
    | again =>
      simp only [Task.step, look, hf] at h
      cases h
      exact ⟨rfl, rfl⟩
    | last =>
      simp only [Task.step, giveUp, JobTable.giveUp_fst, hf] at h
      cases h
      exact ⟨rfl, rfl⟩

/-- A request looks for its job for the last time. Unless it finds the job or its end, it leaves its
error in the table. -/
theorem Turn.of_expired (h : (expired payload job).Turn manager next manager')
    (hd : manager.table.Distinct) :
    (∃ id, manager.table.status job = .active id ∧ next = handing payload job id) ∨
    (manager.table.status job = .finished ∧ next = ended (.ok .discarded)) ∨
    manager.table.status job = .unknown ∧
      next = ended (.error (.contextTimeout job manager.waitMillis)) ∧
      manager'.table.entry job =
        ⟨none, none, some (.contextTimeout job manager.waitMillis, manager.now)⟩ := by
  cases h with
  | step h =>
    cases hs : manager.table.status job with
    | active id =>
      simp only [Task.step, giveUp, JobTable.giveUp_fst, hs] at h
      cases h
      exact .inl ⟨id, rfl, rfl⟩
    | finished =>
      simp only [Task.step, giveUp, JobTable.giveUp_fst, hs] at h
      cases h
      exact .inr (.inl ⟨rfl, rfl⟩)
    | unknown =>
      simp only [Task.step, giveUp, JobTable.giveUp_fst, hs] at h
      cases h
      exact .inr (.inr ⟨rfl, rfl, (JobTable.entry_giveUp hd hs _ job).trans (if_pos rfl)⟩)

-- ---------------------------------------------------------------------------
-- Requests that have found their job
-- ---------------------------------------------------------------------------

def IsTimely (result : DeliveryResult) : Prop :=
  ∀ error, result = .error error → ¬ error.IsContextTimeout

def Found : Task → Prop
  | handing .. | gathering _ | merging .. | retiring .. => True
  | failing _ _ result | stopping _ _ result | publishing _ _ result | ended result =>
    IsTimely result
  | _ => False

theorem isTimely_ok (delivery : Delivery) : IsTimely (.ok delivery) := fun _ => nofun

theorem found_hand (payload : List UInt8) (job : JobId) (id : ContextId) (manager : Manager) :
    (hand payload job id manager).1.Found := by
  unfold hand
  cases manager.contexts[id]? with
  | none => exact isTimely_ok _
  | some context =>
    cases hd : Request.decode context.inputTypes payload with
    | error error =>
      simp only [hd]
      rintro _ ⟨⟩ ⟨_, _, rfl⟩
      obtain ⟨reason, he⟩ := Request.decode_error hd
      cases he
    | ok request =>
      simp only [hd]
      split
      · exact isTimely_ok _
      · trivial
      · exact isTimely_ok _
      · exact isTimely_ok _
      · rename_i h
        rintro _ ⟨⟩ ⟨_, _, rfl⟩
        rcases MergeContext.accept_error h with ⟨_, he⟩ | ⟨_, he⟩ <;> cases he

theorem Turn.found (h : task.Turn manager next manager') (hf : task.Found) : next.Found := by
  cases h with
  | lapse => exact hf.elim
  | step h =>
    obtain rfl : (task.step manager).1 = next := congrArg Prod.fst h
    cases task with
    | handing payload job id => exact found_hand payload job id manager
    | gathering id =>
      simp only [Task.step, gather]
      cases manager.contexts[id]? with
      | none => exact isTimely_ok _
      | some context => cases hb : context.takeBuckets.1 <;> simp only [hb] <;> trivial
    | merging id buckets =>
      simp only [Task.step, merge]
      cases manager.contexts[id]? with
      | none => exact isTimely_ok _
      | some context => trivial
    | retiring id outcome =>
      simp only [Task.step, retire]
      cases manager.contexts[id]? with
      | none => exact isTimely_ok _
      | some context => exact isTimely_ok _
    | failing job error result =>
      simp only [Task.step, Manager.retire_eq]
      cases (manager.table.entry job).active <;> exact hf
    | stopping | publishing | ended => exact hf
    | _ => exact hf.elim

end Task

namespace System

theorem Reaches.found {s s' : System} {i : Nat} {task : Task} (h : s.Reaches s')
    (hi : s.tasks[i]? = some task) (hf : task.Found) :
    ∃ later, s'.tasks[i]? = some later ∧ later.Found := by
  induction h with
  | refl => exact ⟨task, hi, hf⟩
  | tail _ hstep ih =>
    obtain ⟨later, hlater, hfound⟩ := ih
    cases hstep with
    | tick => exact ⟨later, hlater, hfound⟩
    | act j hact =>
      by_cases hj : i = j
      · subst hj
        obtain ⟨next, hturn, hnext⟩ := hact.own hlater
        exact ⟨next, hnext, hturn.found hfound⟩
      · rw [← hact.other hj] at hlater
        exact ⟨later, hlater, hfound⟩

end System

end ShardQuery
