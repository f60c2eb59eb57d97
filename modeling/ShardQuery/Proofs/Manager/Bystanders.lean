import ShardQuery.Proofs.Manager.Accounts
import ShardQuery.Proofs.Manager.Isolation
/-!
# Tasks beside a context

What other tasks do to a context that takes no more requests: nothing. While its job is
active these are requests that look for the job, registrations, and the announcement of
one. Once the job has ended, those that have found the context before go on to it.

`Turn.of_benign` and `Moves.of_bystander`: the context stays as it is.
-/

namespace ShardQuery

namespace Task

variable {manager : Manager} {task next : Task} {record : Option Record}
  {contexts : List MergeContext} {table : JobTable} {id : ContextId} {job : JobId}
  {context : MergeContext} {payload : List UInt8}

-- ---------------------------------------------------------------------------
-- Requests on their way
-- ---------------------------------------------------------------------------

theorem LooksFor.job? (h : task.LooksFor job) : task.job? manager = some job := by
  cases h <;> rfl

/-- A request for a job that is known comes nearer to the context, unless it is handed to it now or
the job has ended. -/
theorem Moves.onItsWay (h : Moves manager task record next contexts table)
    (hp : task.payload? = some payload) (hjob : task.job? manager = some job)
    (honly : ∀ other, task.context? = some other → other = id)
    (hstatus : manager.table.status job = .active id ∨ manager.table.status job = .finished) :
    task = Task.handing payload job id ∨
      contexts = manager.contexts ∧ table = manager.table ∧
        (next.payload? = some payload ∧ next.job? manager = some job ∧
            (∀ other, next.context? = some other → other = id) ∨
          manager.table.status job = .finished ∧ next = ended (.ok .discarded)) := by
  have hknown : manager.table.status job ≠ .unknown := by
    rcases hstatus with hs | hs <;> simp [hs]
  have hnone {task : Task} (h : task.context? = none) (other : ContextId)
      (hother : task.context? = some other) : other = id := by
    rw [h] at hother
    cases hother
  cases h with
  | seeks hseeks =>
    refine .inr ⟨rfl, rfl, ?_⟩
    cases hseeks with
    | arrives deadline seen hpeek =>
      cases hp
      rw [Task.job?, hpeek] at hjob
      exact .inl ⟨rfl, hjob, hnone rfl⟩
    | malformed hpeek =>
      rw [Task.job?, hpeek] at hjob
      cases hjob
    | waits _ _ _ _ hs =>
      cases hjob
      exact absurd hs hknown
    | goesOn | again | lapses => exact .inl ⟨hp, hjob, hnone rfl⟩
    | late hl hf =>
      cases hl.job?.symm.trans hjob
      exact .inr ⟨hf, rfl⟩
  | finds hl hown ha =>
    cases hown.symm.trans hp
    cases hl.job?.symm.trans hjob
    have hactive := JobTable.status_eq_active.mpr ha
    rcases hstatus with hs | hs
    · cases hactive.symm.trans hs
      exact .inr ⟨rfl, rfl, .inl ⟨rfl, rfl, fun _ h => (Option.some.inj h).symm⟩⟩
    · cases hactive.symm.trans hs
  | givesUp hs =>
    cases hjob
    exact absurd hs hknown
  | works hid hfound hw =>
    left
    cases hw with
    | malformed | answers =>
      cases hp
      cases hjob
      rw [honly _ rfl]
    | _ => cases hp
  | misses _ hr => cases hr <;> cases hp
  | _ => cases hp

theorem Moves.late {types : List DataType} {request : Request}
    (h : Moves manager task record next contexts table) (hp : task.payload? = some payload)
    (hd : Request.decode types payload = .ok request) (hjob : task.job? manager = some job)
    (honly : ∀ other, task.context? = some other → other = id)
    (hstatus : manager.table.status job = .active id ∨ manager.table.status job = .finished)
    (hc : manager.contexts[id]? = some context) (htypes : context.inputTypes = types)
    (hshut : ¬ context.IsOpen) :
    contexts = manager.contexts ∧ table = manager.table ∧
      (next.payload? = some payload ∧ next.job? manager = some job ∧
          (∀ other, next.context? = some other → other = id) ∨
        next = ended (.ok .discarded)) := by
  rcases h.onItsWay hp hjob honly hstatus with rfl | ⟨hcontexts, htable, hgoes⟩
  · obtain ⟨htable, found, hfound, ⟨error, hfailed, -⟩ | ⟨request, -, -, rfl, hcontexts⟩⟩ :=
      h.handing
    · cases hfound.symm.trans hc
      rw [htypes, hd] at hfailed
      cases hfailed
    · cases hfound.symm.trans hc
      rw [hcontexts, MergeContext.accept_shut hshut]
      exact ⟨set_same hc, htable, .inr rfl⟩
  · exact ⟨hcontexts, htable, hgoes.imp_right And.right⟩

-- ---------------------------------------------------------------------------
-- While the job is active
-- ---------------------------------------------------------------------------

/-- What other tasks may be about while a context is merged: requests that can be decoded and have
found no other context, registrations, and the announcement of one. -/
inductive Benign (types : List DataType) (id : ContextId) : Task → Prop where
  | request {task : Task} {payload : List UInt8} {request : Request} :
      task.payload? = some payload → Request.decode types payload = .ok request →
      (∀ other, task.context? = some other → other = id) → Benign types id task
  | registering (context : MergeContext) : Benign types id (registering context)
  | announcing (job : JobId) (other : ContextId) : Benign types id (announcing job other none)

theorem Moves.of_announcing
    (h : Moves manager (announcing job id none) record next contexts table) :
    contexts = manager.contexts ∧ table = manager.table ∧ next = registered (.ok id) := by
  obtain ⟨found, hfound, ⟨after, hw, -, hcontexts, htable⟩ | ⟨_, htask, -⟩⟩ := h.of_context? rfl
  · cases hw
    exact ⟨hcontexts.trans (set_same hfound), htable, rfl⟩
  · cases htask

/-- Such a task leaves the context that is merged, and its active job, as they are. -/
theorem Turn.of_benign {types : List DataType} {manager' : Manager}
    (h : task.Turn manager next manager') (hs : manager.Sound) (hk : task.Knows manager)
    (hb : task.Benign types id) (hjob : task.job? manager = some job)
    (ha : (manager.table.entry job).active = some id) (hc : manager.contexts[id]? = some context)
    (htypes : context.inputTypes = types) (hshut : ¬ context.IsOpen) :
    manager'.contexts[id]? = some context ∧ (manager'.table.entry job).active = some id ∧
      (next.Benign types id ∨ next.job? manager' = none) := by
  have hm := h.moves hk
  cases hb with
  | request hp hd honly =>
    obtain ⟨hcontexts, htable, ⟨hstill, -, honly⟩ | rfl⟩ :=
      hm.late hp hd hjob honly (.inl (JobTable.status_eq_active.mpr ha)) hc htypes hshut
    · exact ⟨hcontexts ▸ hc, htable ▸ ha, .inl (.request hstill hd honly)⟩
    · exact ⟨hcontexts ▸ hc, htable ▸ ha, .inr rfl⟩
  | registering own =>
    cases hjob
    obtain ⟨hactive, hcontexts⟩ := h.registering_active hs ha
    obtain ⟨rfl, -⟩ := h.refused hs.distinct (.inl (by simp [ha]))
    exact ⟨hcontexts.trans hc, hactive, .inr rfl⟩
  | announcing own other =>
    obtain ⟨hcontexts, htable, rfl⟩ := hm.of_announcing
    exact ⟨hcontexts ▸ hc, htable ▸ ha, .inr rfl⟩

-- ---------------------------------------------------------------------------
-- Once the job has ended
-- ---------------------------------------------------------------------------

/-- A task that holds the context although its job has ended. -/
inductive Bystander (id : ContextId) : Task → Prop where
  | handing (payload : List UInt8) (job : JobId) : Bystander id (handing payload job id)
  | announcing (job : JobId) : Bystander id (announcing job id none)

theorem Benign.bystander {types : List DataType} (h : task.Benign types id)
    (hid : task.context? = some id) : task.Bystander id := by
  cases h with
  | request hp =>
    cases task <;> cases hp <;> cases hid
    exact .handing _ _
  | registering => cases hid
  | announcing job other =>
    cases hid
    exact .announcing job

theorem Moves.of_bystander (h : Moves manager task record next contexts table)
    (hb : task.Bystander id) (hc : manager.contexts[id]? = some context)
    (hshut : ¬ context.IsOpen) : contexts = manager.contexts ∧ next.context? = none := by
  cases hb with
  | handing payload job =>
    obtain ⟨-, found, hfound, ⟨_, -, -, rfl, hcontexts⟩ | ⟨request, -, -, rfl, hcontexts⟩⟩ :=
      h.handing
    · exact ⟨hcontexts, rfl⟩
    · cases hfound.symm.trans hc
      rw [hcontexts, MergeContext.accept_shut hshut]
      exact ⟨set_same hc, rfl⟩
  | announcing job =>
    obtain ⟨hcontexts, -, rfl⟩ := h.of_announcing
    exact ⟨hcontexts, rfl⟩

end Task

namespace System

variable {s s' : System} {i j : Nat} {id : ContextId} {job : JobId} {task : Task}

theorem Acts.job?_other (hact : s.Acts i s') (hs : s.Sound) (hj : j ≠ i)
    (htask : s'.tasks[j]? = some task) (hjob : task.job? s'.manager = some job) :
    s.tasks[j]? = some task ∧ task.job? s.manager = some job := by
  rw [hact.other hj] at htask
  obtain ⟨_, _, -, hturn, -⟩ := hact.exists_turn
  exact ⟨htask, hturn.effect.job?_of_knows (hs.tasks task (List.mem_of_getElem? htask)) hjob⟩

theorem Acts.inactive {own : JobId} (hact : s.Acts i s') (hs : s.Sound)
    (hat : s.manager.jobAt id = some own) (htable : s'.manager.table = s.manager.retired own)
    (job : JobId) : (s'.manager.table.entry job).active ≠ some id := by
  intro ha
  obtain ⟨_, _, -, hturn, -⟩ := hact.exists_turn
  cases (hturn.effect.jobAt hat).symm.trans ((hact.sound hs).manager.active job id ha)
  rw [htable, JobTable.entry_retire hs.manager.distinct, if_pos rfl] at ha
  cases ha

end System

end ShardQuery
