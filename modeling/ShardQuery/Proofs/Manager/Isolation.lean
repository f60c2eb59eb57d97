import ShardQuery.Proofs.Manager.Runs
/-!
# Jobs apart from each other

A task leaves everything alone that belongs to other jobs than its own. Only what is
as old as the retention time may be forgotten of them.
-/

namespace ShardQuery

namespace Manager

/-- Everything that belongs to the job is as before, except that some of it may have become too old
to be remembered. -/
structure Spares (job : JobId) (before after : Manager) : Prop where
  active : (after.table.entry job).active = (before.table.entry job).active
  finished : (after.table.entry job).finished = (before.table.entry job).finished ∨
    (after.table.entry job).finished = none ∧ ∃ since,
      (before.table.entry job).finished = some since ∧
        before.retentionMillis ≤ before.now - since
  pending : (after.table.entry job).pending = (before.table.entry job).pending ∨
    (after.table.entry job).pending = none ∧ ∃ error since,
      (before.table.entry job).pending = some (error, since) ∧
        before.retentionMillis ≤ before.now - since
  contexts : ∀ (id : ContextId) (context : MergeContext), context.job = job →
    (after.contexts[id]? = some context ↔ before.contexts[id]? = some context)

variable {manager manager' : Manager} {job : JobId}

theorem Spares.of_aged
    (hentry : manager'.table.entry job = manager.table.entry job ∨
      manager'.table.entry job =
        (manager.table.entry job).aged manager.now manager.retentionMillis)
    (hcontexts : ∀ (id : ContextId) (context : MergeContext), context.job = job →
      (manager'.contexts[id]? = some context ↔ manager.contexts[id]? = some context)) :
    manager.Spares job manager' := by
  rcases hentry with hsame | haged
  · exact ⟨by rw [hsame], .inl (by rw [hsame]), .inl (by rw [hsame]), hcontexts⟩
  · refine ⟨by rw [haged, JobTable.Entry.aged_active], ?_, ?_, hcontexts⟩
    · rw [haged]
      rcases JobTable.Entry.filter_or _ (manager.table.entry job).finished with
        hkept | ⟨hnone, since, hsome, hold⟩
      · exact .inl hkept
      · exact .inr ⟨hnone, since, hsome, by simpa [JobTable.Entry.isFresh] using hold⟩
    · rw [haged]
      rcases JobTable.Entry.filter_or _ (manager.table.entry job).pending with
        hkept | ⟨hnone, ⟨error, since⟩, hsome, hold⟩
      · exact .inl hkept
      · exact .inr ⟨hnone, error, since, hsome, by simpa [JobTable.Entry.isFresh] using hold⟩

end Manager

namespace Task

variable {manager manager' : Manager} {task : Task} {job : JobId}

theorem contexts_modify {id : ContextId} {f : MergeContext → MergeContext}
    (hid : task.context? = some id) (hk : task.Knows manager) (hjob : task.job? manager ≠ some job)
    (hf : ∀ context, manager.contexts[id]? = some context → (f context).job = context.job)
    (place : ContextId) {context : MergeContext} (hc : context.job = job) :
    (manager.contexts.modify id f)[place]? = some context ↔
      manager.contexts[place]? = some context := by
  by_cases hplace : id = place
  · subst hplace
    obtain ⟨own, hat, hown⟩ := hk id hid
    obtain ⟨old, hold, rfl⟩ := Option.map_eq_some_iff.mp hat
    have hne : old.job ≠ job := fun h => hjob (h ▸ hown)
    have hnew := hf old hold
    simp only [List.getElem?_modify_eq, hold, Option.map_some, Option.map_eq_map,
      Option.some.injEq]
    constructor
    · rintro rfl
      exact absurd (hnew.symm.trans hc) hne
    · rintro rfl
      exact absurd hc hne
  · simp [hplace]

theorem contexts_append {new : MergeContext} (contexts : List MergeContext) (hnew : new.job ≠ job)
    (place : ContextId) {context : MergeContext} (hc : context.job = job) :
    (contexts ++ [new])[place]? = some context ↔ contexts[place]? = some context := by
  rw [List.getElem?_append]
  split
  · rfl
  · rename_i hge
    have hnone : contexts[place]? = none := by simpa using hge
    rw [hnone]
    constructor
    · intro h
      have hm := List.mem_of_getElem? h
      rw [List.mem_singleton.mp hm] at hc
      exact absurd hc hnew
    · exact nofun

theorem Effect.spares (h : Effect manager task manager') (hs : manager.Sound)
    (hk : task.Knows manager) (hjob : task.job? manager ≠ some job) :
    manager.Spares job manager' := by
  cases h with
  | tells => exact .of_aged (.inl rfl) fun _ _ _ => .rfl
  | works _ id f _ _ _ hid hf =>
    exact .of_aged (.inl rfl) fun place context => contexts_modify hid hk hjob hf place
  | retires _ own _ hown =>
    refine .of_aged (.inr ?_) fun _ _ _ => .rfl
    rw [JobTable.entry_retire hs.distinct, if_neg]
    rintro rfl
    exact hjob (job?_of_retires? hown)
  | givesUp payload own =>
    refine .of_aged (JobTable.entry_giveUp_ne hs.distinct _ ?_) fun _ _ _ => .rfl
    rintro rfl
    exact hjob rfl
  | refuses context hr =>
    refine .of_aged (.inr ?_) fun _ _ _ => .rfl
    refine JobTable.entry_register_ne hs.distinct _ ?_
    rintro rfl
    exact hjob rfl
  | enters context hr =>
    have hne : job ≠ context.job := by
      rintro rfl
      exact hjob rfl
    exact .of_aged (.inr (JobTable.entry_register_ne hs.distinct _ hne)) fun place context =>
      contexts_append _ hne.symm place

end Task

namespace Task

variable {manager manager' : Manager} {next : Task} {payload : List UInt8} {error : EngineError}

theorem Turn.malformed (h : (arrived payload).Turn manager next manager')
    (hp : Request.Header.peek payload = .error error) :
    next = ended (.error error) ∧ manager'.table = manager.table ∧
      manager'.contexts = manager.contexts := by
  cases h with
  | step h =>
    simp only [Task.step, arrive, hp, Prod.mk.injEq] at h
    obtain ⟨rfl, rfl⟩ := h
    exact ⟨rfl, rfl, rfl⟩

theorem Turn.of_ended {result : DeliveryResult} (h : (ended result).Turn manager next manager') :
    next = ended result ∧ manager' = manager := by
  cases h with
  | step h =>
    cases h
    exact ⟨rfl, rfl⟩

end Task

namespace System

variable {start s s' : System} {i : Nat} {call : Task}

theorem Acts.malformed {payload : List UInt8} {error : EngineError} (hact : s.Acts i s')
    (hp : Request.Header.peek payload = .error error)
    (hi : s.tasks[i]? = some (.arrived payload) ∨ s.tasks[i]? = some (.ended (.error error))) :
    s'.manager.table = s.manager.table ∧ s'.manager.contexts = s.manager.contexts ∧
      s'.tasks[i]? = some (.ended (.error error)) := by
  rcases hi with hi | hi
  · obtain ⟨next, hturn, hnext⟩ := hact.own hi
    obtain ⟨rfl, htable, hcontexts⟩ := hturn.malformed hp
    exact ⟨htable, hcontexts, hnext⟩
  · obtain ⟨next, hturn, hnext⟩ := hact.own hi
    obtain ⟨rfl, hm⟩ := hturn.of_ended
    exact ⟨by rw [hm], by rw [hm], hnext⟩

theorem Reaches.malformed {payload : List UInt8} {error : EngineError} (h : start.Reaches s)
    (hp : Request.Header.peek payload = .error error)
    (hi : start.tasks[i]? = some (.arrived payload)) :
    s.tasks[i]? = some (.arrived payload) ∨ s.tasks[i]? = some (.ended (.error error)) := by
  induction h with
  | refl => exact .inl hi
  | tail _ hstep ih =>
    cases hstep with
    | tick => exact ih
    | act j hact =>
      by_cases hj : i = j
      · subst hj
        exact .inr (hact.malformed hp ih).2.2
      · rwa [hact.other hj]

/-- A turn of a call about one job leaves every other job alone, in whatever state the turn finds
the manager. A call whose payload has no readable header is about no job. -/
theorem turns_spare (hstart : start.Starts) (hcall : start.tasks[i]? = some call)
    (hrun : start.Reaches s) (hact : s.Acts i s') :
    (∀ job other, call.job? start.manager = some job → other ≠ job →
      s.manager.Spares other s'.manager) ∧
    ∀ payload error, call = .arrived payload → Request.Header.peek payload = .error error →
      s'.manager.table = s.manager.table ∧ s'.manager.contexts = s.manager.contexts ∧
        s'.tasks[i]? = some (.ended (.error error)) := by
  have hs := hrun.sound hstart.sound
  constructor
  · intro job other hjob hother
    obtain ⟨task, _, hi, hturn, -⟩ := hact.exists_turn
    refine hturn.effect.spares hs.manager (hs.tasks task (List.mem_of_getElem? hi)) fun htask => ?_
    obtain ⟨origin, horigin, hkeeps⟩ := hrun.call hstart.sound hi
    cases horigin.symm.trans hcall
    exact hother (Option.some.inj ((hkeeps other htask).symm.trans hjob))
  · rintro payload error rfl hp
    exact hact.malformed hp (hrun.malformed hp hcall)

theorem turns_spare_cancelled :
    let active : JobId := ⟨List.replicate 16 1, rfl⟩
    let context := MergeContext.fresh ⟨active, [.long], [], 1⟩ ⟨[]⟩
    let start : System := ⟨.start 10 1000 .info .empty,
      [.registering context, .cancelling .nil, .arrived []]⟩
    let s := start.move 0
    start.Reaches s ∧ (s.manager.table.entry active).active = some 0 ∧
      s.manager.Spares active (s.move 1).manager ∧
      (s.move 2).manager.table = s.manager.table ∧
      (s.move 2).manager.contexts = s.manager.contexts := by
  intro active context start s
  have hcontext : MergeContext.create ⟨active, [.long], [], 1⟩ ⟨[]⟩ = .ok context :=
    MergeContext.create_eq _ (by decide)
  have hstart : start.Starts := by
    refine ⟨⟨10, 1000, .info, .empty, rfl⟩, ?_⟩
    simp only [start, List.forall_mem_cons]
    exact ⟨.register hcontext, .cancel _, .receive _, List.forall_mem_nil _⟩
  have hrun : start.Reaches s := reaches_move start 0
  have hcancelled := turns_spare (i := 1) hstart rfl hrun (acts_move rfl)
  have hmalformed := turns_spare (i := 2) hstart rfl hrun (acts_move rfl)
  obtain ⟨htable, hcontexts, -⟩ := hmalformed.2 [] _ rfl rfl
  exact ⟨hrun, rfl, hcancelled.1 .nil active rfl (by decide), htable, hcontexts⟩

end System

end ShardQuery
