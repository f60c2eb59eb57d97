import ShardQuery.Proofs.Manager.Endings
/-!
# How jobs are counted

Every job that ends is counted as completed or failed unless it was cancelled, and its
owner gets one outcome. What ends a context is in the history, and only such outcomes
are sent; a context ends by its merge once at most, and once at most because of an
error or of being cancelled.

`jobs_counted`: a job of which only one of the two happens is counted once at most, as
its outcome says. `jobs_counted_twice` is a run in which both happen.
-/

namespace ShardQuery

namespace System

variable {start s s' : System} {history : History} {i : Nat} {id : ContextId} {job : JobId}
  {task next : Task} {outcome : JobOutcome}

def sentAt (id : ContextId) (s : System) : Option JobOutcome :=
  s.manager.contexts[id]?.bind (·.outcome)

def isMerging (id : ContextId) (s : System) : Bool := s.manager.contexts[id]?.any (·.merging)

structure Accounts (history : History) (s : System) : Prop where
  new : ∀ context, .registering context ∈ s.tasks →
    ∃ phase chain, context = MergeContext.fresh phase chain
  latched : ∀ context ∈ s.manager.contexts, context.closed = context.outcome.isSome
  known : ∀ record ∈ history, record.id < s.manager.contexts.length
  ready : ∀ id, history.countP (Record.isReady id) = (s.isMerging id).toNat
  balance : ∀ id, s.tasks.countP (Task.isMerge id) + history.countP (Record.isCompletion id) =
    history.countP (Record.isReady id)
  stops : ∀ id, s.tasks.countP (Task.isFailure id) + history.countP (Record.isStop id) ≤ 1
  active : ∀ job id, (s.manager.table.entry job).active = some id →
    s.tasks.countP (Task.isFailure id) + history.countP (Record.isStop id) = 0
  promised : ∀ task ∈ s.tasks, ∀ id outcome, task.promise? = some (id, outcome) →
    ∃ record ∈ history, record.ending? = some (id, outcome)
  sent : ∀ id outcome, s.sentAt id = some outcome →
    ∃ record ∈ history, record.ending? = some (id, outcome)
  kept : ∀ record ∈ history, ∀ id outcome, record.ending? = some (id, outcome) →
    (s.sentAt id).isSome = true ∨ ∃ task ∈ s.tasks, task.promise? = some (id, outcome)

theorem Starts.accounts (h : start.Starts) : start.Accounts [] := by
  obtain ⟨waitMillis, retentionMillis, minimum, sink, hm⟩ := h.manager
  have hcontexts : start.manager.contexts = [] := by rw [hm]; rfl
  have hsent (id : ContextId) : start.sentAt id = none := by simp [sentAt, hcontexts]
  have hmerge (id : ContextId) : start.tasks.countP (Task.isMerge id) = 0 := by
    refine List.countP_eq_zero.mpr fun task hmem => ?_
    cases h.calls task hmem <;> exact Bool.false_ne_true
  have hfailure (id : ContextId) : start.tasks.countP (Task.isFailure id) = 0 := by
    refine List.countP_eq_zero.mpr fun task hmem => ?_
    cases h.calls task hmem <;> exact Bool.false_ne_true
  exact {
    new := fun context hmem => by
      cases h.calls _ hmem with
      | register hcreate => exact ⟨_, _, MergeContext.eq_fresh hcreate⟩
    latched := by simp [hcontexts]
    known := List.forall_mem_nil _
    ready := fun id => by simp [isMerging, hcontexts]
    balance := fun id => by simp [hmerge]
    stops := fun id => by simp [hfailure]
    active := fun job id _ => by simp [hfailure]
    promised := fun task hmem id outcome hp => by cases h.calls task hmem <;> cases hp
    sent := fun id outcome ho => by simp [hsent] at ho
    kept := List.forall_mem_nil _ }

-- ---------------------------------------------------------------------------
-- One turn
-- ---------------------------------------------------------------------------

namespace Accounts

variable {record : Option Record} {contexts : List MergeContext} {table : JobTable}

theorem countP_record (p : Record → Bool) :
    (history ++ record.toList).countP p = history.countP p + Task.tally p record :=
  List.countP_append

theorem countP_turn {tasks : List Task} (hi : tasks[i]? = some task) (next : Task)
    (p : Task → Bool) :
    (tasks.set i next).countP p + (p task).toNat = tasks.countP p + (p next).toNat := by
  have h := MergeContext.countP_set_add (p := p) (y := next) hi
  cases hp : p task <;> cases hq : p next <;> simpa [hp, hq] using h

theorem isMerging_turn (h : s.Accounts history) (hi : s.tasks[i]? = some task)
    (hm : Task.Moves s.manager task record next contexts table) (id : ContextId) :
    (contexts[id]?.any (·.merging)).toNat =
      (s.isMerging id).toNat + Task.tally (Record.isReady id) record := by
  cases hm with
  | @works _ _ _ own context after _ hc hw =>
    by_cases hid : own = id
    · subst hid
      have hlt := (List.getElem?_eq_some_iff.mp hc).1
      simpa [isMerging, hc, List.getElem?_set_self hlt] using hw.merging
    · rw [List.getElem?_set_ne hid, hw.isReady_ne hid]
      rfl
  | @enters context =>
    obtain ⟨phase, chain, rfl⟩ := h.new context (List.mem_of_getElem? hi)
    rw [List.getElem?_append]
    split
    · rfl
    · rename_i hge
      have hnone : s.manager.contexts[id]? = none := by simpa using hge
      simp only [isMerging, hnone]
      cases hnew : [MergeContext.fresh phase chain][id - s.manager.contexts.length]? with
      | none => rfl
      | some found =>
        rw [List.mem_singleton.mp (List.mem_of_getElem? hnew)]
        rfl
  | _ => rfl

theorem unused (h : s.Accounts history) (hs : s.Sound) :
    s.tasks.countP (Task.isFailure s.manager.contexts.length) +
      history.countP (Record.isStop s.manager.contexts.length) = 0 := by
  have htasks : s.tasks.countP (Task.isFailure s.manager.contexts.length) = 0 := by
    refine List.countP_eq_zero.mpr fun task hmem => ?_
    rw [Task.isFailure_of_context? task fun hid => ?_]
    · exact Bool.false_ne_true
    · obtain ⟨job, hat, -⟩ := hs.tasks task hmem _ hid
      simp [Manager.jobAt] at hat
  have hhistory : history.countP (Record.isStop s.manager.contexts.length) = 0 := by
    refine List.countP_eq_zero.mpr fun record hmem hstop => ?_
    exact Nat.ne_of_lt (h.known record hmem) (Record.id_of_isStop hstop)
  omega

theorem not_active_new (hs : s.Sound) :
    (s.manager.table.entry job).active ≠ some s.manager.contexts.length := by
  intro ha
  have hat := hs.manager.active job _ ha
  simp [Manager.jobAt] at hat

theorem stops_turn (h : s.Accounts history) (hs : s.Sound) (hi : s.tasks[i]? = some task)
    (hm : Task.Moves s.manager task record next contexts table) :
    (∀ id, (s.tasks.set i next).countP (Task.isFailure id) +
        (history ++ record.toList).countP (Record.isStop id) ≤ 1) ∧
    ∀ job id, (table.entry job).active = some id →
      (s.tasks.set i next).countP (Task.isFailure id) +
        (history ++ record.toList).countP (Record.isStop id) = 0 := by
  have hturn (id : ContextId) := countP_turn hi next (Task.isFailure id)
  have hunused := h.unused hs
  constructor
  · intro id
    have hle := h.stops id
    have hturn := hturn id
    rw [countP_record]
    rcases hm.stops id with hsame | ⟨hmore, ⟨job, ha, -⟩ | ⟨rfl, -⟩⟩
    · omega
    · have hnone := h.active job id ha
      omega
    · omega
  · intro job id ha
    have hturn := hturn id
    rw [countP_record]
    rcases hm.active hs.manager.distinct ha with hold | ⟨rfl, context, htask, -, hr⟩
    · have hnone := h.active job id hold
      rcases hm.stops id with hsame | ⟨-, ⟨other, hother, hretired⟩ | ⟨rfl, -⟩⟩
      · omega
      · -- what stops the context retires its job, which then is not active
        cases (hs.manager.active job id hold).symm.trans (hs.manager.active other id hother)
        rw [hretired, JobTable.entry_retire hs.manager.distinct, if_pos rfl] at ha
        cases ha
      · exact absurd hold (not_active_new hs)
    · rcases hm.stops s.manager.contexts.length with hsame | ⟨-, ⟨other, hother, -⟩ |
        ⟨-, found, error, hfound, hfailed⟩⟩
      · omega
      · exact absurd hother (not_active_new hs)
      · cases htask.symm.trans hfound
        cases hr.symm.trans hfailed

theorem sentAt_eq_some : s.sentAt id = some outcome ↔
    ∃ context, s.manager.contexts[id]? = some context ∧ context.outcome = some outcome :=
  Option.bind_eq_some_iff

theorem latched_turn (h : s.Accounts history) (hi : s.tasks[i]? = some task)
    (hm : Task.Moves s.manager task record next contexts table) :
    ∀ context ∈ contexts, context.closed = context.outcome.isSome := by
  intro after hmem
  obtain ⟨id, hc⟩ := List.mem_iff_getElem?.mp hmem
  rcases hm.context_after hc with hsame | ⟨context, hwas, hw⟩ | rfl
  · exact h.latched after (List.mem_of_getElem? hsame)
  · exact (hw.latched (h.latched context (List.mem_of_getElem? hwas))).1
  · obtain ⟨phase, chain, rfl⟩ := h.new after (List.mem_of_getElem? hi)
    rfl

theorem sent_stays (h : s.Accounts history) (ho : s.sentAt id = some outcome)
    (hm : Task.Moves s.manager task record next contexts table) :
    contexts[id]?.bind (·.outcome) = some outcome := by
  obtain ⟨context, hc, houtcome⟩ := sentAt_eq_some.mp ho
  have hlatched := h.latched context (List.mem_of_getElem? hc)
  rcases hm.context_before hc with hsame | ⟨after, hafter, hw⟩
  · simp [hsame, houtcome]
  · have hstays := (hw.latched hlatched).2 (by simp [hlatched, houtcome])
    simp [hafter, hstays, houtcome]

theorem exists_record {p : Record → Prop} (h : (∃ r ∈ history, p r) ∨ ∃ r, record = some r ∧ p r) :
    ∃ r ∈ history ++ record.toList, p r := by
  rcases h with ⟨r, hmem, hr⟩ | ⟨r, rfl, hr⟩
  · exact ⟨r, List.mem_append_left _ hmem, hr⟩
  · exact ⟨r, List.mem_append_right _ List.mem_cons_self, hr⟩

/-- What is promised or sent stands in the history. -/
theorem endings_turn (h : s.Accounts history) (hi : s.tasks[i]? = some task)
    (hm : Task.Moves s.manager task record next contexts table) :
    (∀ task ∈ s.tasks.set i next, ∀ id outcome, task.promise? = some (id, outcome) →
      ∃ r ∈ history ++ record.toList, r.ending? = some (id, outcome)) ∧
    ∀ id outcome, contexts[id]?.bind (·.outcome) = some outcome →
      ∃ r ∈ history ++ record.toList, r.ending? = some (id, outcome) := by
  have hpromised := h.promised task (List.mem_of_getElem? hi)
  constructor
  · intro other hmem id outcome hp
    rcases List.mem_or_eq_of_mem_set hmem with hmem | rfl
    · exact exists_record (.inl (h.promised other hmem id outcome hp))
    · rcases hm.promise hp with hp | hr
      · exact exists_record (.inl (hpromised id outcome hp))
      · exact exists_record (.inr (Option.bind_eq_some_iff.mp hr))
  · intro id outcome ho
    obtain ⟨after, hafter, houtcome⟩ := Option.bind_eq_some_iff.mp ho
    have hsent {context : MergeContext} (hc : s.manager.contexts[id]? = some context)
        (ho : context.outcome = some outcome) : ∃ r ∈ history, r.ending? = some (id, outcome) :=
      h.sent id outcome (sentAt_eq_some.mpr ⟨context, hc, ho⟩)
    rcases hm.context_after hafter with hsame | ⟨context, hc, hw⟩ | rfl
    · exact exists_record (.inl (hsent hsame houtcome))
    · rcases hw.sends houtcome with hold | hp | hr
      · exact exists_record (.inl (hsent hc hold))
      · exact exists_record (.inl (hpromised id outcome hp))
      · exact exists_record (.inr (Option.bind_eq_some_iff.mp hr))
    · obtain ⟨phase, chain, rfl⟩ := h.new after (List.mem_of_getElem? hi)
      cases houtcome

/-- What ends a context is sent, or was forestalled, or is promised. -/
theorem kept_turn (h : s.Accounts history) (hi : s.tasks[i]? = some task)
    (hm : Task.Moves s.manager task record next contexts table) :
    ∀ r ∈ history ++ record.toList, ∀ id outcome, r.ending? = some (id, outcome) →
      (contexts[id]?.bind (·.outcome)).isSome = true ∨
        ∃ task ∈ s.tasks.set i next, task.promise? = some (id, outcome) := by
  have hlatched := h.latched_turn hi hm
  have hnext : next ∈ s.tasks.set i next :=
    List.mem_of_getElem? (List.getElem?_set_self (List.getElem?_eq_some_iff.mp hi).1)
  have hthen {id : ContextId} {outcome : JobOutcome} (h : next.promise? = some (id, outcome) ∨
      ∃ context, contexts[id]? = some context ∧ context.closed = true) :
      (contexts[id]?.bind (·.outcome)).isSome = true ∨
        ∃ task ∈ s.tasks.set i next, task.promise? = some (id, outcome) := by
    rcases h with hp | ⟨context, hc, hclosed⟩
    · exact .inr ⟨next, hnext, hp⟩
    · rw [hlatched context (List.mem_of_getElem? hc)] at hclosed
      exact .inl (by rw [hc]; exact hclosed)
  intro r hmem id outcome hr
  rcases List.mem_append.mp hmem with hmem | hmem
  · rcases h.kept r hmem id outcome hr with hsent | ⟨other, hother, hp⟩
    · obtain ⟨sent, hsent⟩ := Option.isSome_iff_exists.mp hsent
      exact .inl (by rw [h.sent_stays hsent hm]; rfl)
    · obtain ⟨j, hj⟩ := List.mem_iff_getElem?.mp hother
      by_cases hij : i = j
      · subst hij
        cases hi.symm.trans hj
        exact hthen (hm.keepsPromise hp)
      · exact .inr ⟨other, List.mem_of_getElem? ((List.getElem?_set_ne hij).trans hj), hp⟩
  · exact hthen (hm.ending (by rw [Option.mem_toList.mp hmem]; exact hr))

theorem known_turn (h : s.Accounts history) (hs : s.Sound)
    (hm : Task.Moves s.manager task record next contexts table) :
    ∀ r ∈ history ++ record.toList, r.id < contexts.length := by
  intro r hmem
  refine Nat.lt_of_lt_of_le ?_ hm.length_le
  rcases List.mem_append.mp hmem with hmem | hmem
  · exact h.known r hmem
  · exact hm.id_lt hs.manager (Option.mem_toList.mp hmem)

theorem turn (h : s.Accounts history) (hs : s.Sound) (hi : s.tasks[i]? = some task)
    (hact : s.Acts i s') : s'.Accounts (history ++ (task.record? s.manager).toList) := by
  obtain ⟨next, -, hm, htasks⟩ := hact.moves hs hi
  obtain ⟨hstops, hactive⟩ := h.stops_turn hs hi hm
  obtain ⟨hpromised, hsent⟩ := h.endings_turn hi hm
  rw [← htasks] at hstops hactive hpromised
  exact {
    new := fun context hmem => by
      obtain ⟨j, hj⟩ := List.mem_iff_getElem?.mp hmem
      exact h.new context (List.mem_of_getElem? (hact.registering hj).2)
    latched := h.latched_turn hi hm
    known := h.known_turn hs hm
    ready := fun id => by
      rw [countP_record, h.ready]
      exact (h.isMerging_turn hi hm id).symm
    balance := fun id => by
      have hbalance := h.balance id
      have hmove := hm.balance id
      have htasks' := countP_turn hi next (Task.isMerge id)
      rw [← htasks] at htasks'
      rw [countP_record, countP_record]
      omega
    stops := hstops
    active := hactive
    promised := hpromised
    sent := hsent
    kept := htasks ▸ h.kept_turn hi hm }

end Accounts

theorem Runs.accounts (hstart : start.Starts) (h : start.Runs history s) : s.Accounts history := by
  induction h with
  | start => exact hstart.accounts
  | act hruns hi hact ih => exact ih.turn (hruns.reaches.sound hstart.sound) hi hact
  | tick now _ _ ih =>
    exact ⟨ih.new, ih.latched, ih.known, ih.ready, ih.balance, ih.stops, ih.active, ih.promised,
      ih.sent, ih.kept⟩

theorem Reachable.sent_stays (h : s.Reachable) (ho : s.sentAt id = some outcome)
    (hrun : s.Reaches s') : s'.sentAt id = some outcome := by
  obtain ⟨start, hstart, hfirst⟩ := h
  induction hrun with
  | refl => exact ho
  | tail hrun hstep ih =>
    cases hstep with
    | tick => exact ih
    | act i hact =>
      obtain ⟨history, hruns⟩ := Reaches.exists_runs (hfirst.trans hrun)
      obtain ⟨task, _, hi, -⟩ := hact.exists_turn
      obtain ⟨next, -, hm, -⟩ := hact.moves (hruns.reaches.sound hstart.sound) hi
      exact (hruns.accounts hstart).sent_stays ih hm

-- ---------------------------------------------------------------------------
-- What the counters say
-- ---------------------------------------------------------------------------

theorem eq_of_countP_le {α : Type} {p : α → Bool} {xs : List α} {x y : α} (h : xs.countP p ≤ 1)
    (hx : x ∈ xs) (hy : y ∈ xs) (hpx : p x = true) (hpy : p y = true) : x = y := by
  have hx := List.mem_filter.mpr ⟨hx, hpx⟩
  have hy := List.mem_filter.mpr ⟨hy, hpy⟩
  rw [List.countP_eq_length_filter] at h
  match hfound : xs.filter p with
  | [] => simp [hfound] at hx
  | [z] =>
    rw [hfound] at hx hy
    rw [List.mem_singleton.mp hx, List.mem_singleton.mp hy]
  | z :: z' :: rest => simp [hfound] at h

theorem countP_or_le {α : Type} (p q : α → Bool) (xs : List α) :
    xs.countP (fun x => p x || q x) ≤ xs.countP p + xs.countP q := by
  induction xs with
  | nil => rfl
  | cons x xs ih =>
    simp only [List.countP_cons]
    cases p x <;> cases q x <;> simp <;> omega

theorem Accounts.countP_ends_le (h : s.Accounts history) (id : ContextId) :
    history.countP (Record.ends id) ≤
      history.countP (Record.isReady id) + history.countP (Record.isStop id) := by
  have hor := countP_or_le (Record.isCompletion id) (Record.isStop id) history
  have hbalance := h.balance id
  change history.countP (fun record => _ || _) ≤ _
  omega

def Settles (id : ContextId) (outcome : JobOutcome) (s : System) : Prop :=
  s.sentAt id = some outcome ∨
    s.sentAt id = none ∧ ∃ task ∈ s.tasks, task.promise? = some (id, outcome)

theorem Accounts.settles (h : s.Accounts history) (hends : history.countP (Record.ends id) ≤ 1)
    {record : Record} (hmem : record ∈ history) (hr : record.ending? = some (id, outcome)) :
    s.Settles id outcome := by
  cases hsent : s.sentAt id with
  | some sent =>
    obtain ⟨other, hother, ho⟩ := h.sent id sent hsent
    obtain rfl := eq_of_countP_le hends hmem hother (Record.ends_of_ending hr)
      (Record.ends_of_ending ho)
    cases hr.symm.trans ho
    exact .inl hsent
  | none =>
    rcases h.kept record hmem id outcome hr with hsome | hpromised
    · simp [hsent] at hsome
    · exact .inr ⟨hsent, hpromised⟩

/-- In whatever order the calls of a run take their turns, the two counters count the jobs that the
history says were counted. All producers of a job finish once at most, and then its merge counts
it; besides it is stopped by an error or by being cancelled once at most. A job to which not both
happen is counted once at most, under the fate that the outcome for its owner says. Every outcome
that was sent stands in the history. -/
theorem jobs_counted (hstart : start.Starts) (h : start.Runs history s) :
    (∀ counter, counter.IsFate → s.manager.counted counter =
      UInt64.ofNat (history.countP fun record => record.counter? = some counter)) ∧
    ∀ id,
      history.countP (Record.isReady id) ≤ 1 ∧ history.countP (Record.isStop id) ≤ 1 ∧
      s.tasks.countP (Task.isMerge id) + history.countP (Record.isCompletion id) =
        history.countP (Record.isReady id) ∧
      history.countP (Record.counts id) =
        history.countP (Record.isCompletion id) + history.countP (Record.isFailed id) ∧
      (history.countP (Record.isReady id) + history.countP (Record.isStop id) ≤ 1 →
        history.countP (Record.counts id) ≤ 1 ∧
        ∀ record ∈ history, record.id = id → ∀ counter, record.counter? = some counter →
          ∃ outcome, counter = Record.fate outcome ∧ s.Settles id outcome) ∧
      ∀ outcome, s.sentAt id = some outcome →
        ∃ record ∈ history, record.ending? = some (id, outcome) := by
  have haccounts := h.accounts hstart
  refine ⟨fun counter hc => h.counted hstart hc, fun id => ?_⟩
  have hready := haccounts.ready id
  have hstops := haccounts.stops id
  refine ⟨?_, ?_, haccounts.balance id, Record.countP_counts id history, fun hone => ?_,
    haccounts.sent id⟩
  · rw [hready]
    exact Bool.toNat_le _
  · omega
  · have hends := Nat.le_trans (haccounts.countP_ends_le id) hone
    refine ⟨Nat.le_trans (List.countP_mono_left fun _ _ => Record.ends_of_counts) hends, ?_⟩
    rintro record hmem rfl counter hcounter
    obtain ⟨outcome, hr, rfl⟩ := Record.ending_of_counter hcounter
    exact ⟨outcome, rfl, haccounts.settles hends hmem hr⟩

theorem jobs_counted_merged :
    let context := MergeContext.fresh ⟨.nil, [.long], [], 1⟩ ⟨[]⟩
    let start : System :=
      ⟨.start 10 1000 .info .empty, [.registering context, .arrived lastRows]⟩
    let run := start.play [0, 0, 1, 1, 1, 1, 1, 1, 1]
    start.Starts ∧ start.Runs run.1 run.2 ∧ run.2.manager.counted .jobsCompleted = 1 ∧
      run.1.countP (Record.isReady 0) + run.1.countP (Record.isStop 0) ≤ 1 ∧
      run.1.countP (Record.counts 0) ≤ 1 := by
  intro context start run
  have hstart : start.Starts := by
    refine ⟨⟨10, 1000, .info, .empty, rfl⟩, ?_⟩
    have hcontext : MergeContext.create ⟨.nil, [.long], [], 1⟩ ⟨[]⟩ = .ok context :=
      MergeContext.create_eq _ (by decide)
    simp only [start, List.forall_mem_cons]
    exact ⟨.register hcontext, .receive _, List.forall_mem_nil _⟩
  have hrun : start.Runs run.1 run.2 := runs_play ..
  obtain ⟨hcounted, hjobs⟩ := jobs_counted hstart hrun
  have hone : run.1.countP (Record.isReady 0) + run.1.countP (Record.isStop 0) ≤ 1 := by
    decide +kernel
  obtain ⟨-, -, -, -, hcounts, -⟩ := hjobs 0
  have hcompleted : (run.1.countP fun record => record.counter? = some .jobsCompleted) = 1 := by
    decide +kernel
  exact ⟨hstart, hrun, (hcounted _ .completed).trans (by rw [hcompleted]; rfl), hone,
    (hcounts hone).1⟩

/-- All producers of a job have finished when it fails, or is cancelled. The merge goes on, and is
counted like one that was not disturbed: the failed job counts as completed and as failed, and the
cancelled one as completed. -/
theorem jobs_counted_twice :
    let context := MergeContext.fresh ⟨.nil, [.long], [], 1⟩ ⟨[]⟩
    let error : EngineError := .jobTimeout .nil 1 1
    let start (stop : Task) : System :=
      ⟨.start 10 1000 .info .empty, [.registering context, .arrived lastRows, stop]⟩
    let failed := start (.failing .nil error (.error error))
    let cancelled := start (.cancelling .nil)
    let run (start : System) := start.play [0, 0, 1, 1, 1, 2, 1, 1, 2, 2, 1, 1]
    (failed.Starts ∧ failed.Runs (run failed).1 (run failed).2 ∧
      (run failed).1.countP (Record.counts 0) = 2 ∧
      (run failed).2.manager.counted .jobsCompleted = 1 ∧
      (run failed).2.manager.counted .jobsFailed = 1 ∧
      (run failed).2.sentAt 0 = some (.error error)) ∧
    cancelled.Starts ∧ cancelled.Runs (run cancelled).1 (run cancelled).2 ∧
      (run cancelled).2.manager.counted .jobsCompleted = 1 ∧
      (run cancelled).2.sentAt 0 = some (.error .cancelled) := by
  intro context error start failed cancelled run
  have hstarts {stop : Task} (hstop : stop.IsCall) : (start stop).Starts := by
    refine ⟨⟨10, 1000, .info, .empty, rfl⟩, ?_⟩
    have hcontext : MergeContext.create ⟨.nil, [.long], [], 1⟩ ⟨[]⟩ = .ok context :=
      MergeContext.create_eq _ (by decide)
    simp only [start, List.forall_mem_cons]
    exact ⟨.register hcontext, .receive _, hstop, List.forall_mem_nil _⟩
  exact ⟨⟨hstarts (.fail ..), runs_play .., by decide +kernel, by decide +kernel,
    by decide +kernel, by decide +kernel⟩, hstarts (.cancel _), runs_play ..,
    by decide +kernel, by decide +kernel⟩

end System

end ShardQuery
