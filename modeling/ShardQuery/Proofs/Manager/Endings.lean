import ShardQuery.Proofs.Manager.Counters
/-!
# Endings of contexts, move by move

A merge is under way until it is counted, a context is stopped only while its job is
active or as its registration says, and what a task is about to publish stands in the
history. Each of these is a balance of one move between the task, the history, and the
context.
-/

namespace ShardQuery

namespace Task

variable {manager : Manager} {task next : Task} {record : Option Record}
  {contexts : List MergeContext} {table : JobTable} {id : ContextId} {outcome : JobOutcome}
  {context after : MergeContext} {sink : Sink}

def isMerge (id : ContextId) : Task → Bool
  | gathering i | merging i _ | retiring i _ => i == id
  | _ => false

def isFailure (id : ContextId) : Task → Bool
  | announcing _ i (some _) => i == id
  | _ => false

def promise? : Task → Option (ContextId × JobOutcome)
  | stopping id error _ => some (id, .error error)
  | publishing id outcome _ => some (id, outcome)
  | _ => none

def tally (p : Record → Bool) (record : Option Record) : Nat := record.toList.countP p

@[simp] theorem tally_none (p : Record → Bool) : tally p none = 0 := rfl

@[simp] theorem tally_some (p : Record → Bool) (record : Record) :
    tally p (some record) = (p record).toNat := by
  cases h : p record <;> simp [tally, h]

theorem isMerge_of_context? (task : Task) (h : task.context? ≠ some id) :
    task.isMerge id = false := by
  cases task with
  | gathering | merging | retiring => simpa [context?, isMerge] using h
  | _ => rfl

theorem isFailure_of_context? (task : Task) (h : task.context? ≠ some id) :
    task.isFailure id = false := by
  cases task with
  | announcing job i failure =>
    cases failure with
    | none => rfl
    | some error => simpa [context?, isFailure] using h
  | _ => rfl

theorem context?_of_promise? (h : task.promise? = some (id, outcome)) :
    task.context? = some id := by
  cases task with
  | stopping | publishing =>
    cases h
    rfl
  | _ => cases h

-- ---------------------------------------------------------------------------
-- One move
-- ---------------------------------------------------------------------------

theorem balance_replied (job : JobId) (id other : ContextId)
    (answer : Except EngineError Acceptance) :
    ((replied job id answer).isMerge other).toNat =
      (Record.isReady other (.answered id answer)).toNat := by
  rcases answer with error | acceptance
  · cases error <;> rfl
  · cases acceptance <;> rfl

theorem quiet_replied (job : JobId) (id other : ContextId)
    (answer : Except EngineError Acceptance) :
    (replied job id answer).isFailure other = false ∧ (replied job id answer).promise? = none := by
  rcases answer with error | acceptance
  · cases error <;> exact ⟨rfl, rfl⟩
  · cases acceptance <;> exact ⟨rfl, rfl⟩

/-- A merge is under way from the answer that all producers have finished until it is counted. -/
theorem Moves.balance (h : Moves manager task record next contexts table) (id : ContextId) :
    (next.isMerge id).toNat + tally (Record.isCompletion id) record =
      (task.isMerge id).toNat + tally (Record.isReady id) record := by
  cases h with
  | works _ _ hw =>
    cases hw with
    | answers => simpa [isMerge, Record.isCompletion] using balance_replied ..
    | _ => simp [isMerge, Record.isCompletion, Record.isReady]
  | seeks hseeks =>
    obtain ⟨htask, hnext⟩ := hseeks.context?
    rw [isMerge_of_context? task (by simp [htask]),
      isMerge_of_context? next (by simp [hnext])]
    rfl
  | finds hl =>
    rw [isMerge_of_context? task (by simp [hl.context?])]
    rfl
  | misses result hr =>
    rw [isMerge_of_context? task (by simp [hr.context?])]
    rfl
  | completes outcome => simp [isMerge, Record.isCompletion, Record.isReady]
  | _ => rfl

theorem Moves.stops (h : Moves manager task record next contexts table) (id : ContextId) :
    (next.isFailure id).toNat + tally (Record.isStop id) record = (task.isFailure id).toNat ∨
      (next.isFailure id).toNat + tally (Record.isStop id) record =
          (task.isFailure id).toNat + 1 ∧
        ((∃ job, (manager.table.entry job).active = some id ∧ table = manager.retired job) ∨
          id = manager.contexts.length ∧ ∃ context error, task = registering context ∧
            (manager.registration context).1 = .failed error) := by
  cases h with
  | works _ _ hw =>
    left
    cases hw with
    | answers =>
      rw [(quiet_replied _ _ _ _).1]
      rfl
    | announcesFailure => simp [isFailure, Record.isStop]
    | _ => rfl
  | seeks hseeks =>
    obtain ⟨htask, hnext⟩ := hseeks.context?
    rw [isFailure_of_context? task (by simp [htask]),
      isFailure_of_context? next (by simp [hnext])]
    exact .inl rfl
  | finds hl =>
    rw [isFailure_of_context? task (by simp [hl.context?])]
    exact .inl rfl
  | misses result hr =>
    rw [isFailure_of_context? task (by simp [hr.context?])]
    exact .inl rfl
  | @fails job own error result ha =>
    by_cases hid : own = id
    · subst hid
      exact .inr ⟨by simp [isFailure, Record.isStop], .inl ⟨job, ha, rfl⟩⟩
    · exact .inl (by simp [isFailure, Record.isStop, hid])
  | @cancels job own ha =>
    by_cases hid : own = id
    · subst hid
      exact .inr ⟨by simp [isFailure, Record.isStop], .inl ⟨job, ha, rfl⟩⟩
    · exact .inl (by simp [isFailure, Record.isStop, hid])
  | @enters context failure hr =>
    cases failure with
    | none => exact .inl rfl
    | some error =>
      by_cases hid : manager.contexts.length = id
      · exact .inr ⟨by simp [isFailure, hid], .inr ⟨hid.symm, context, error, rfl, hr⟩⟩
      · exact .inl (by simp [isFailure, hid])
  | completes outcome => exact .inl (by simp [isFailure, Record.isStop])
  | _ => exact .inl rfl

theorem Moves.promise (h : Moves manager task record next contexts table)
    (hp : next.promise? = some (id, outcome)) :
    task.promise? = some (id, outcome) ∨ record.bind Record.ending? = some (id, outcome) := by
  cases h with
  | works _ _ hw =>
    cases hw with
    | answers =>
      rw [(quiet_replied _ _ id _).2] at hp
      cases hp
    | stops => exact .inl hp
    | _ => cases hp
  | seeks hseeks =>
    have hnext := context?_of_promise? hp
    simp [hseeks.context?.2] at hnext
  | completes | fails | cancels => exact .inr hp
  | _ => cases hp

/-- What is promised is published unless the context has ended before. -/
theorem Moves.keepsPromise (h : Moves manager task record next contexts table)
    (hp : task.promise? = some (id, outcome)) :
    next.promise? = some (id, outcome) ∨
      ∃ context, contexts[id]? = some context ∧ context.closed = true := by
  have hid := context?_of_promise? hp
  cases h with
  | works _ hc hw =>
    cases hw with
    | stops => exact .inl hp
    | publishes outcome result =>
      cases hp
      exact .inr ⟨_, List.getElem?_set_self (List.getElem?_eq_some_iff.mp hc).1,
        MergeContext.closed_publish ..⟩
    | _ => cases hp
  | seeks hseeks => simp [hseeks.context?.1] at hid
  | finds hl => simp [hl.context?] at hid
  | misses result hr => simp [hr.context?] at hid
  | _ => cases hp

theorem Moves.ending (h : Moves manager task record next contexts table)
    (hr : record.bind Record.ending? = some (id, outcome)) :
    next.promise? = some (id, outcome) ∨
      ∃ context, contexts[id]? = some context ∧ context.closed = true := by
  cases h with
  | works _ hc hw =>
    cases hw with
    | announcesFailure job error =>
      cases hr
      exact .inr ⟨_, List.getElem?_set_self (List.getElem?_eq_some_iff.mp hc).1,
        MergeContext.closed_publish ..⟩
    | _ => cases hr
  | completes | fails | cancels => exact .inl hr
  | _ => cases hr

-- ---------------------------------------------------------------------------
-- One context during a move
-- ---------------------------------------------------------------------------

theorem isReady_answered (id : ContextId) (answer : Except EngineError Acceptance) :
    Record.isReady id (.answered id answer) = true ↔ answer = .ok .ready := by
  rcases answer with error | acceptance
  · simp [Record.isReady]
  · cases acceptance <;> simp [Record.isReady]

theorem Works.merging (h : Works sink id context task record next after) :
    after.merging.toNat = context.merging.toNat + tally (Record.isReady id) record := by
  cases h with
  | answers =>
    rename_i request _
    have hmerging := context.accept_merging request
    cases hm : context.merging with
    | true =>
      rw [MergeContext.accept_shut (MergeContext.not_isOpen_of_merging hm)]
      simp [hm, Record.isReady]
    | false =>
      have hready : (context.accept request).2.merging =
          Record.isReady id (.answered id (context.accept request).1) := by
        rw [Bool.eq_iff_iff, hmerging, isReady_answered]
        simp [hm]
      simp [hready]
  | gathers hb =>
    obtain ⟨-, rfl⟩ := MergeContext.takeBuckets_ok hb
    rfl
  | gathersNone hb =>
    obtain ⟨-, rfl⟩ := MergeContext.takeBuckets_error hb
    rfl
  | merges buckets =>
    rw [MergeContext.merge_context]
    rfl
  | publishes outcome =>
    rw [MergeContext.merging_publish]
    rfl
  | announcesFailure job error =>
    rw [MergeContext.fail, MergeContext.merging_publish]
    rfl
  | _ => rfl

theorem Works.sends (h : Works sink id context task record next after)
    (ho : after.outcome = some outcome) :
    context.outcome = some outcome ∨ task.promise? = some (id, outcome) ∨
      record.bind Record.ending? = some (id, outcome) := by
  cases h with
  | answers =>
    rename_i request _
    exact .inl ((context.untouched_accept request).outcome ▸ ho)
  | gathers hb =>
    obtain ⟨-, rfl⟩ := MergeContext.takeBuckets_ok hb
    exact .inl ho
  | gathersNone hb =>
    obtain ⟨-, rfl⟩ := MergeContext.takeBuckets_error hb
    exact .inl ho
  | merges buckets =>
    rw [MergeContext.merge_context] at ho
    exact .inl ho
  | publishes own =>
    exact (MergeContext.outcome_publish ho).imp_right fun h => .inl (by rw [← h]; rfl)
  | announcesFailure job error =>
    exact (MergeContext.outcome_publish ho).imp_right fun h => .inr (by rw [← h]; rfl)
  | _ => exact .inl ho

theorem Works.isReady_ne {other : ContextId}
    (h : Works sink id context task record next after) (hne : id ≠ other) :
    tally (Record.isReady other) record = 0 := by
  cases h with
  | answers =>
    rename_i request _
    rcases (context.accept request).1 with error | acceptance
    · rfl
    · cases acceptance <;> simp [Record.isReady, hne]
  | _ => rfl

/-- Closing a context and handing over its outcome are one. -/
theorem Works.latched (h : Works sink id context task record next after)
    (hl : context.closed = context.outcome.isSome) :
    after.closed = after.outcome.isSome ∧
      (context.closed = true → after.outcome = context.outcome) := by
  have hpublish (context : MergeContext) (outcome : JobOutcome)
      (hl : context.closed = context.outcome.isSome) :
      (context.publish outcome).closed = (context.publish outcome).outcome.isSome ∧
        (context.closed = true → (context.publish outcome).outcome = context.outcome) := by
    unfold MergeContext.publish
    split
    · exact ⟨hl, fun _ => rfl⟩
    · rename_i hopen
      exact ⟨rfl, fun hclosed => absurd hclosed hopen⟩
  cases h with
  | answers =>
    rename_i request _
    have hun := context.untouched_accept request
    exact ⟨by rw [hun.closed, hun.outcome, hl], fun _ => hun.outcome⟩
  | gathers hb =>
    obtain ⟨-, rfl⟩ := MergeContext.takeBuckets_ok hb
    exact ⟨hl, fun _ => rfl⟩
  | gathersNone hb =>
    obtain ⟨-, rfl⟩ := MergeContext.takeBuckets_error hb
    exact ⟨hl, fun _ => rfl⟩
  | merges buckets =>
    rw [MergeContext.merge_context]
    exact ⟨hl, fun _ => rfl⟩
  | publishes outcome => exact hpublish context outcome hl
  | announcesFailure job error => exact hpublish context.raiseCancel _ hl
  | _ => exact ⟨hl, fun _ => rfl⟩

end Task

end ShardQuery
