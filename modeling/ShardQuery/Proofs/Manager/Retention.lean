import ShardQuery.Proofs.Manager.Requests
/-!
# Jobs that have ended

A job is active until it ends, and is then remembered as ended for the retention time.
So long it cannot be registered again, and requests that look for it are discarded.
-/

namespace ShardQuery

namespace Task

variable {manager manager' : Manager} {task next : Task} {job : JobId} {context : MergeContext}

theorem Turn.retires (h : task.Turn manager next manager') (hd : manager.table.Distinct)
    (hjob : task.retires? manager = some job) :
    (manager'.table.entry job).finished = some manager.now := by
  have hretired : (JobTable.entry (manager.retired job) job).finished = some manager.now := by
    rw [JobTable.entry_retire hd, if_pos rfl]
  cases h with
  | lapse => cases hjob
  | step h =>
    cases task with
    | failing =>
      cases hjob
      simp only [Task.step, Manager.retire_eq] at h
      cases ha : (manager.table.entry job).active <;> rw [ha] at h <;> cases h <;> exact hretired
    | cancelling =>
      cases hjob
      simp only [Task.step, Manager.retire_eq] at h
      cases ha : (manager.table.entry job).active <;> rw [ha] at h <;> cases h <;> exact hretired
    | retiring id outcome =>
      obtain ⟨context, hc, rfl⟩ := Option.map_eq_some_iff.mp hjob
      obtain ⟨telemetry, hm⟩ :=
        Manager.recordOutcome_eq context.job outcome (manager.retire context.job).2
      simp only [Task.step, retire, hc, hm] at h
      cases h
      exact hretired
    | registering context =>
      simp only [retires?] at hjob
      split at hjob
      · rename_i error hr
        cases hjob
        rw [registering_entered (some error) hr] at h
        cases h
        exact congrArg JobTable.Entry.finished (JobTable.entry_register_failed hd hr)
      · cases hjob
    | _ => cases hjob

theorem Turn.refused (h : (registering context).Turn manager next manager')
    (hd : manager.table.Distinct)
    (hknown : (manager.table.entry context.job).active.isSome = true ∨
      ((manager.table.entry context.job).aged manager.now manager.retentionMillis).finished.isSome
        = true) :
    next = registered (.error (.invalidPlan s!"job {context.job} is already registered")) ∧
      manager'.contexts = manager.contexts := by
  cases h with
  | step h =>
    rw [registering_refused (congrArg Prod.fst (JobTable.register_refused hd _ hknown))] at h
    cases h
    exact ⟨rfl, rfl⟩

theorem Turn.registering_active {id : ContextId}
    (h : (registering context).Turn manager next manager') (hs : manager.Sound)
    (ha : (manager.table.entry job).active = some id) :
    (manager'.table.entry job).active = some id ∧
      manager'.contexts[id]? = manager.contexts[id]? := by
  have hkept : (JobTable.entry (manager.registration context).2 job).active = some id :=
    JobTable.register_keeps_active hs.distinct ha
  obtain ⟨old, hold, -⟩ := Option.map_eq_some_iff.mp (hs.active job id ha)
  cases h with
  | step h =>
    rcases registering_or context manager with hr | ⟨failure, hr⟩
    · rw [registering_refused hr] at h
      cases h
      exact ⟨hkept, rfl⟩
    · rw [registering_entered failure hr] at h
      cases h
      exact ⟨hkept, List.getElem?_append_left (List.getElem?_eq_some_iff.mp hold).1⟩

end Task

namespace System

variable {s s' : System} {i : Nat} {task : Task} {job : JobId} {context : MergeContext}
  {id : ContextId}

/-- For the retention time it is remembered that the job ended, then or again. -/
theorem Reaches.finished {time : Nat} (h : s.Reaches s') (hs : s.Sound)
    (hf : (s.manager.table.entry job).finished = some time) (htime : time ≤ s.manager.now)
    (hnow : s'.manager.now < time + s.manager.retentionMillis) :
    ∃ since, time ≤ since ∧ (s'.manager.table.entry job).finished = some since :=
  h.entry (P := fun entry => ∃ since, time ≤ since ∧ entry.finished = some since) hs
    ⟨time, Nat.le_refl _, hf⟩ htime hnow
    fun hnext ⟨_, hle, hf⟩ hnow hlt => hnext.finished hf hle hnow hlt

theorem Sound.status_finished (hs : s.Sound)
    (hf : (s.manager.table.entry job).finished.isSome = true) :
    s.manager.table.status job = .finished := by
  refine JobTable.status_eq_finished.mpr ⟨?_, hf⟩
  cases ha : (s.manager.table.entry job).active with
  | none => rfl
  | some id => simp [(hs.manager.consistent job (by simp [ha])).1] at hf

structure Refuses (job : JobId) (s : System) : Prop where
  status : s.manager.table.status job = .finished
  registration : ∀ (i : Nat) (context : MergeContext) (s' : System),
    s.tasks[i]? = some (.registering context) → context.job = job → s.Acts i s' →
    s'.tasks[i]? =
        some (.registered (.error (.invalidPlan s!"job {job} is already registered"))) ∧
      s'.manager.contexts = s.manager.contexts
  request : ∀ (i : Nat) (task : Task) (s' : System),
    s.tasks[i]? = some task → task.LooksFor job → s.Acts i s' →
    s'.tasks[i]? = some (.ended (.ok .discarded)) ∧ s'.manager.contexts = s.manager.contexts

theorem Sound.refuses (hs : s.Sound) {time since : Nat}
    (hf : (s.manager.table.entry job).finished = some since) (hle : time ≤ since)
    (htime : time ≤ s.manager.now) (hnow : s.manager.now < time + s.manager.retentionMillis) :
    s.Refuses job := by
  have hstatus : s.manager.table.status job = .finished := hs.status_finished (by simp [hf])
  refine ⟨hstatus, ?_, ?_⟩
  · rintro i context s' hi rfl hact
    obtain ⟨next, hturn, hnext⟩ := hact.own hi
    have haged := JobTable.Entry.aged_finished hf hle htime hnow
    obtain ⟨rfl, hcontexts⟩ := hturn.refused hs.manager.distinct (.inr (by simp [haged]))
    exact ⟨hnext, hcontexts⟩
  · intro i task s' hi hl hact
    obtain ⟨next, hturn, hnext⟩ := hact.own hi
    obtain ⟨rfl, hcontexts⟩ := hturn.discarded hl hstatus
    exact ⟨hnext, hcontexts⟩

/-- In whatever order calls are served: a job that is active has not ended, no error waits for it,
and registering does not take its context away. A job that has ended is refused for the retention
time. -/
theorem ended_jobs_stay (h : s.Reachable) :
    (∀ job, (s.manager.table.entry job).active.isSome = true →
      (s.manager.table.entry job).finished = none ∧
        (s.manager.table.entry job).pending = none) ∧
    (∀ i context s' job id, s.tasks[i]? = some (.registering context) →
      (s.manager.table.entry job).active = some id → s.Acts i s' →
      (s'.manager.table.entry job).active = some id ∧
        s'.manager.contexts[id]? = s.manager.contexts[id]?) ∧
    ∀ i task job s' later, s.tasks[i]? = some task → task.retires? s.manager = some job →
      s.Acts i s' → s'.Reaches later →
      later.manager.now < s.manager.now + s.manager.retentionMillis → later.Refuses job := by
  have hs := h.sound
  refine ⟨hs.manager.consistent, ?_, ?_⟩
  · intro i context s' job id hi ha hact
    obtain ⟨next, hturn, -⟩ := hact.own hi
    exact hturn.registering_active hs.manager ha
  · intro i task job s' later hi hjob hact hrun hnow
    obtain ⟨next, hturn, -⟩ := hact.own hi
    have hs' := hact.sound hs
    obtain ⟨hclock, -, hretention⟩ := hturn.effect.clock
    obtain ⟨hlater, -, hretention'⟩ := hrun.clock
    obtain ⟨since, hle, hf⟩ := hrun.finished hs' (hturn.retires hs.manager.distinct hjob)
      (Nat.le_of_eq hclock.symm) (by omega)
    exact (hrun.sound hs').refuses hf hle (by omega) (by omega)

theorem ended_jobs_stay_cancelled :
    let context := MergeContext.fresh ⟨.nil, [.long], [], 1⟩ ⟨[]⟩
    let manager : Manager := .start 10 1000 .info .empty
    let start : System := ⟨manager,
      [.arrived probe, .registering context, .cancelling .nil, .registering context]⟩
    let s := System.move 1 ⟨manager.increment .requestsReceived,
      [.looking probe .nil 10 0 false, .registering context, .cancelling .nil,
        .registering context]⟩
    let later := (s.move 2).wait 999
    start.Reaches s ∧ (s.manager.table.entry .nil).active = some 0 ∧
      ((s.move 3).manager.table.entry .nil).active = some 0 ∧
      (later.move 0).tasks[0]? = some (.ended (.ok .discarded)) := by
  intro context manager start s later
  have hstart : start.Starts := by
    refine ⟨⟨10, 1000, .info, .empty, rfl⟩, ?_⟩
    have hcontext : MergeContext.create ⟨.nil, [.long], [], 1⟩ ⟨[]⟩ = .ok context :=
      MergeContext.create_eq _ (by decide)
    simp only [start, List.forall_mem_cons]
    exact ⟨.receive _, .register hcontext, .cancel _, .register hcontext, List.forall_mem_nil _⟩
  have hrun : start.Reaches s :=
    .head (.act 0 (.turn rfl (.step (step_probe manager)))) (reaches_move _ 1)
  have hactive : (s.manager.table.entry .nil).active = some 0 := by decide +kernel
  obtain ⟨-, hkept, hended⟩ := ended_jobs_stay ⟨start, hstart, hrun⟩
  refine ⟨hrun, hactive, (hkept 3 context _ .nil 0 rfl hactive (acts_move rfl)).1, ?_⟩
  have hrefuses : later.Refuses .nil :=
    hended 2 (.cancelling .nil) .nil _ later rfl rfl (acts_move rfl) (reaches_wait _ _) (by decide)
  exact (hrefuses.request 0 _ _ rfl (.again _ _ _ _) (acts_move rfl)).1

end System

end ShardQuery
