import ShardQuery.Proofs.Manager.Bystanders
/-!
# Requests after all producers have finished

From the answer that all producers have finished to the publication of the outcome the
merge runs outside of the context, and the job is still active. A request that comes in
this time finds the job, is decoded, and is refused by its context.

`late_requests_discarded`: so long as every such request can be decoded, all of them are
discarded and the outcome is that of the merge. `late_request_fails_job` is a run in
which one cannot be decoded and fails the job.
-/

namespace ShardQuery

namespace Task

variable {manager : Manager} {task next : Task} {record : Option Record}
  {contexts : List MergeContext} {table : JobTable} {id : ContextId} {sink : Sink}
  {context after : MergeContext}

-- ---------------------------------------------------------------------------
-- Contexts before their merge
-- ---------------------------------------------------------------------------

theorem Works.chain (h : Works sink id context task record next after)
    (hmerge : task.isMerge id = true → context.merging = true)
    (hchain : context.merging = false → context.chain.isSome = true)
    (hafter : after.merging = false) : after.chain.isSome = true := by
  have hmerging : context.merging = false := by
    have hle := h.merging
    rw [hafter] at hle
    cases hm : context.merging with
    | false => rfl
    | true =>
      rw [hm] at hle
      simp at hle
      omega
  have hsome := hchain hmerging
  cases h with
  | answers =>
    rename_i request _
    rw [(context.untouched_accept request).chain]
    exact hsome
  | gathers hb =>
    obtain ⟨-, rfl⟩ := MergeContext.takeBuckets_ok hb
    exact hsome
  | gathersNone hb =>
    obtain ⟨-, rfl⟩ := MergeContext.takeBuckets_error hb
    exact hsome
  | merges buckets =>
    rw [hmerge (by simp [isMerge])] at hmerging
    cases hmerging
  | publishes outcome =>
    rw [context.chain_publish]
    exact hsome
  | announcesFailure job error =>
    rw [MergeContext.fail, MergeContext.chain_publish]
    exact hsome
  | _ => exact hsome

theorem Works.cancelled (h : Works sink id context task record next after)
    (hafter : after.cancelled = true) :
    context.cancelled = true ∨ (∃ error result, task = stopping id error result) ∨
      ∃ r, record = some r ∧ r.isStop id = true := by
  cases h with
  | answers =>
    rename_i request _
    exact .inl ((context.untouched_accept request).cancelled ▸ hafter)
  | gathers hb =>
    obtain ⟨-, rfl⟩ := MergeContext.takeBuckets_ok hb
    exact .inl hafter
  | gathersNone hb =>
    obtain ⟨-, rfl⟩ := MergeContext.takeBuckets_error hb
    exact .inl hafter
  | merges buckets =>
    rw [MergeContext.merge_context] at hafter
    exact .inl hafter
  | stops error result => exact .inr (.inl ⟨error, result, rfl⟩)
  | publishes outcome =>
    rw [context.cancelled_publish] at hafter
    exact .inl hafter
  | announcesFailure job error => exact .inr (.inr ⟨_, rfl, by simp [Record.isStop]⟩)
  | _ => exact .inl hafter

theorem Moves.stopping {error : EngineError} {result : DeliveryResult}
    (h : Moves manager task record next contexts table) (hnext : next = stopping id error result) :
    ∃ r, record = some r ∧ r.isStop id = true := by
  cases h with
  | works _ _ hw =>
    cases hw with
    | answers =>
      have hquiet := congrArg promise? hnext
      rw [(quiet_replied _ _ id _).2] at hquiet
      cases hquiet
    | _ => cases hnext
  | seeks hseeks =>
    have hcontext := hseeks.context?.2
    rw [hnext] at hcontext
    cases hcontext
  | fails | cancels =>
    cases hnext
    exact ⟨_, rfl, by simp [Record.isStop]⟩
  | _ => cases hnext

end Task

namespace System

variable {start s s' : System} {history : History} {i j : Nat} {id : ContextId} {job : JobId}
  {task next : Task} {context : MergeContext} {payload : List UInt8}

/-- Before its merge a context has its chain, and its flag is down unless it was stopped. -/
structure Intact (history : History) (s : System) : Prop where
  chain : ∀ context ∈ s.manager.contexts, context.merging = false → context.chain.isSome = true
  cancelled : ∀ id context, s.manager.contexts[id]? = some context → context.cancelled = true →
    ∃ r ∈ history, r.isStop id = true
  stopping : ∀ id error result, .stopping id error result ∈ s.tasks →
    ∃ r ∈ history, r.isStop id = true

theorem Starts.intact (h : start.Starts) : start.Intact [] := by
  obtain ⟨waitMillis, retentionMillis, minimum, sink, hm⟩ := h.manager
  have hcontexts : start.manager.contexts = [] := by rw [hm]; rfl
  refine ⟨by simp [hcontexts], fun id context hc => by simp [hcontexts] at hc, ?_⟩
  intro id error result hmem
  cases h.calls _ hmem

theorem Accounts.merging (h : s.Accounts history) (hi : s.tasks[i]? = some task)
    (hmerge : task.isMerge id = true) (hc : s.manager.contexts[id]? = some context) :
    context.merging = true := by
  have hbalance := h.balance id
  have hready := h.ready id
  have hpos : 0 < s.tasks.countP (Task.isMerge id) :=
    List.countP_pos_iff.mpr ⟨task, List.mem_of_getElem? hi, hmerge⟩
  rw [isMerging, hc, Option.any_some] at hready
  cases hm : context.merging with
  | true => rfl
  | false =>
    rw [hm, Bool.toNat_false] at hready
    omega

theorem Intact.turn (h : s.Intact history) (haccounts : s.Accounts history) (hs : s.Sound)
    (hi : s.tasks[i]? = some task) (hact : s.Acts i s') :
    s'.Intact (history ++ (task.record? s.manager).toList) := by
  obtain ⟨next, -, hm, htasks⟩ := hact.moves hs hi
  refine ⟨fun after hmem => ?_, fun id after hc hafter => ?_, fun id error result hmem => ?_⟩
  · obtain ⟨id, hc⟩ := List.mem_iff_getElem?.mp hmem
    rcases hm.context_after hc with hsame | ⟨context, hwas, hw⟩ | rfl
    · exact h.chain after (List.mem_of_getElem? hsame)
    · exact hw.chain (fun hmerge => haccounts.merging hi hmerge hwas)
        (h.chain context (List.mem_of_getElem? hwas))
    · obtain ⟨phase, chain, rfl⟩ := haccounts.new after (List.mem_of_getElem? hi)
      exact fun _ => rfl
  · rcases hm.context_after hc with hsame | ⟨context, hwas, hw⟩ | rfl
    · exact Accounts.exists_record (.inl (h.cancelled id after hsame hafter))
    · rcases hw.cancelled hafter with hold | ⟨error, result, rfl⟩ | hr
      · exact Accounts.exists_record (.inl (h.cancelled id context hwas hold))
      · exact Accounts.exists_record (.inl (h.stopping id error result (List.mem_of_getElem? hi)))
      · exact Accounts.exists_record (.inr hr)
    · obtain ⟨phase, chain, rfl⟩ := haccounts.new after (List.mem_of_getElem? hi)
      cases hafter
  · rw [htasks] at hmem
    rcases List.mem_or_eq_of_mem_set hmem with hmem | hnext
    · exact Accounts.exists_record (.inl (h.stopping id error result hmem))
    · exact Accounts.exists_record (.inr (hm.stopping hnext.symm))

theorem Runs.intact (h : start.Runs history s) (hstart : start.Starts) : s.Intact history := by
  induction h with
  | start => exact hstart.intact
  | act hruns hi hact ih =>
    exact ih.turn (hruns.accounts hstart) (hruns.reaches.sound hstart.sound) hi hact
  | tick now _ _ ih => exact ⟨ih.chain, ih.cancelled, ih.stopping⟩

-- ---------------------------------------------------------------------------
-- The last request
-- ---------------------------------------------------------------------------

structure InMerge (context : MergeContext) : Prop where
  merging : context.merging = true
  closed : context.closed = false
  cancelled : context.cancelled = false
  outcome : context.outcome = none

theorem Reachable.ready (h : s.Reachable) (hi : s.tasks[i]? = some (.handing payload job id))
    (hact : s.Acts i s') (hready : s'.tasks[i]? = some (.gathering id))
    (hactive : (s.manager.table.entry job).active = some id) :
    ∃ context chain, s'.manager.contexts[id]? = some context ∧ InMerge context ∧
      context.job = job ∧ context.chain = some chain ∧ s'.manager.table = s.manager.table := by
  obtain ⟨start, hstart, hrun⟩ := h
  obtain ⟨history, hruns⟩ := hrun.exists_runs
  have hs := hrun.sound hstart.sound
  have haccounts := hruns.accounts hstart
  have hintact := hruns.intact hstart
  obtain ⟨next, -, hm, htasks⟩ := hact.moves hs hi
  rw [htasks, List.getElem?_set_self (List.getElem?_eq_some_iff.mp hi).1] at hready
  obtain ⟨htable, context, hc, ⟨error, -, -, rfl, -⟩ | ⟨request, -, -, rfl, hcontexts⟩⟩ :=
    hm.handing
  · cases hready
  have hanswer : (context.accept request).1 = .ok .ready := by
    generalize (context.accept request).1 = answer at hready
    rcases answer with error | acceptance
    · cases error <;> cases hready
    · cases acceptance <;> cases hready
      rfl
  -- the context was open, so that nothing of it has been merged or stopped before
  have hopen : context.IsOpen := by
    by_contra hshut
    rw [MergeContext.accept_shut hshut] at hanswer
    cases hanswer
  have hun := context.untouched_accept request
  have hmem := List.mem_of_getElem? hc
  obtain ⟨chain, hchain⟩ :=
    Option.isSome_iff_exists.mp (hintact.chain context hmem hopen.not_merging)
  have hcancelled : context.cancelled = false := by
    refine Bool.eq_false_iff.mpr fun hcancelled => ?_
    obtain ⟨r, hr, hstop⟩ := hintact.cancelled id context hc hcancelled
    have hpos := List.countP_pos_iff.mpr ⟨r, hr, hstop⟩
    have hnone := haccounts.active job id hactive
    omega
  have houtcome : context.outcome = none := by
    have hlatched := haccounts.latched context hmem
    rw [hopen.not_closed] at hlatched
    simpa using hlatched.symm
  refine ⟨(context.accept request).2, chain, ?_, ⟨?_, ?_, ?_, ?_⟩, ?_, hun.chain.trans hchain,
    htable⟩
  · rw [hcontexts, List.getElem?_set_self (List.getElem?_eq_some_iff.mp hc).1]
  · exact (context.accept_merging request).mpr (.inr hanswer)
  · exact hun.closed.trans hopen.not_closed
  · exact hun.cancelled.trans hcancelled
  · exact hun.outcome.trans houtcome
  · have hat := hs.manager.active job id hactive
    simpa [Manager.jobAt, hc, hun.job] using hat

-- ---------------------------------------------------------------------------
-- While the merge runs
-- ---------------------------------------------------------------------------

/-- A merge: the number of its task, its job and context, the types of requests, the chain and the
buckets, and the system when all producers had finished. -/
structure Merge where
  task : Nat
  job : JobId
  id : ContextId
  types : List DataType
  chain : Chain
  buckets : List Bucket
  first : System

namespace Merge

variable {m : Merge} {outcome : JobOutcome}

def Comes (m : Merge) (outcome : JobOutcome) (last : System) : Prop :=
  ∃ between, m.first.Reaches between ∧ between.Reaches last ∧
    outcome = (m.chain.execute .cluster false (Bucket.concat m.buckets) between.manager.sink).1

inductive Stage (m : Merge) (s : System) (context : MergeContext) : Task → Prop where
  | gathering : context.chain = some m.chain → context.buckets = m.buckets →
      Stage m s context (.gathering m.id)
  | merging : context.chain = some m.chain → Stage m s context (.merging m.id m.buckets)
  | retiring {outcome : JobOutcome} : m.Comes outcome s → Stage m s context (.retiring m.id outcome)

structure Running (m : Merge) (s : System) : Prop where
  reached : m.first.Reaches s
  active : (s.manager.table.entry m.job).active = some m.id
  benign : ∀ j task, s.tasks[j]? = some task → j ≠ m.task → task.job? s.manager = some m.job →
    task.Benign m.types m.id
  stage : ∃ context task, s.manager.contexts[m.id]? = some context ∧ s.tasks[m.task]? = some task ∧
    InMerge context ∧ context.job = m.job ∧ context.inputTypes = m.types ∧ m.Stage s context task

structure Settled (m : Merge) (s : System) : Prop where
  inactive : ∀ job, (s.manager.table.entry job).active ≠ some m.id
  others : ∀ j task, s.tasks[j]? = some task → j ≠ m.task → task.context? = some m.id →
    task.Bystander m.id
  publishes : ∃ context outcome, s.manager.contexts[m.id]? = some context ∧
    context.inputTypes = m.types ∧ context.merging = true ∧ m.Comes outcome s ∧
    (s.tasks[m.task]? = some (.publishing m.id outcome (.ok .completed)) ∧
        context.closed = false ∧ context.outcome = none ∨
      s.tasks[m.task]? = some (.ended (.ok .completed)) ∧ context.outcome = some outcome)

theorem Comes.step (h : m.Comes outcome s) (hstep : s.Step s') : m.Comes outcome s' := by
  obtain ⟨between, hfirst, hlast, ho⟩ := h
  exact ⟨between, hfirst, hlast.tail hstep, ho⟩

theorem Stage.step (h : m.Stage s context task) (hstep : s.Step s') : m.Stage s' context task := by
  cases h with
  | gathering hchain hbuckets => exact .gathering hchain hbuckets
  | merging hchain => exact .merging hchain
  | retiring hcomes => exact .retiring (hcomes.step hstep)

theorem Running.own (h : m.Running s) (hs : s.Sound) (hact : s.Acts m.task s') :
    m.Running s' ∨ m.Settled s' := by
  obtain ⟨context, task, hc, hi, hin, hjob, htypes, hstage⟩ := h.stage
  obtain ⟨next, -, hm, htasks⟩ := hact.moves hs hi
  have hreached := h.reached.tail (.act m.task hact)
  have hbenign : ∀ j other, s'.tasks[j]? = some other → j ≠ m.task →
      other.job? s'.manager = some m.job → other.Benign m.types m.id := by
    intro j other hj hjm hown
    obtain ⟨hj, hown⟩ := hact.job?_other hs hjm hj hown
    exact h.benign j other hj hjm hown
  have hnext : s'.tasks[m.task]? = some next := by
    rw [htasks, List.getElem?_set_self (List.getElem?_eq_some_iff.mp hi).1]
  have hset (after : MergeContext) : (s.manager.contexts.set m.id after)[m.id]? = some after :=
    List.getElem?_set_self (List.getElem?_eq_some_iff.mp hc).1
  have hid : task.context? = some m.id := by cases hstage <;> rfl
  generalize task.record? s.manager = record at hm
  obtain ⟨found, hfound, hmoves⟩ := hm.of_context? hid
  cases hfound.symm.trans hc
  rcases hmoves with ⟨after, hw, -, hcontexts, htable⟩ | ⟨outcome, rfl, -, rfl, hcontexts, htable⟩
  · left
    refine ⟨hreached, htable ▸ h.active, hbenign, after, next, hcontexts ▸ hset after, hnext, ?_⟩
    cases hstage with
    | gathering hchain hbuckets =>
      cases hw with
      | gathers hb =>
        obtain ⟨-, rfl⟩ := MergeContext.takeBuckets_ok hb
        have htaken : context.takeBuckets =
            (.ok context.buckets, { context with buckets := [] }) := by
          simp [MergeContext.takeBuckets, hin.closed]
        cases htaken.symm.trans hb
        exact ⟨⟨hin.merging, hin.closed, hin.cancelled, hin.outcome⟩, hjob, htypes,
          hbuckets ▸ .merging hchain⟩
      | gathersNone hb =>
        obtain ⟨hclosed, -⟩ := MergeContext.takeBuckets_error hb
        cases hin.closed.symm.trans hclosed
    | merging hchain =>
      cases hw with
      | merges =>
        rw [MergeContext.merge_context, MergeContext.outcome_merge hchain, hin.cancelled]
        exact ⟨⟨hin.merging, hin.closed, rfl, hin.outcome⟩, hjob, htypes,
          .retiring ⟨s, h.reached, .single (.act m.task hact), rfl⟩⟩
    | retiring => cases hw
  · right
    cases hstage with
    | retiring hcomes =>
      have hat : s.manager.jobAt m.id = some context.job := by simp [Manager.jobAt, hc]
      refine ⟨hact.inactive hs hat htable, fun j other hj hjm hid => ?_, context, outcome,
        hcontexts ▸ hc, htypes, hin.merging, hcomes.step (.act m.task hact),
        .inl ⟨hnext, hin.closed, hin.outcome⟩⟩
      obtain ⟨own, hat, hown⟩ := (hact.sound hs).tasks other (List.mem_of_getElem? hj) _ hid
      obtain rfl : m.job = own := by simpa [Manager.jobAt, hcontexts, hc, hjob] using hat
      exact (hbenign j other hj hjm hown).bystander hid

theorem Running.other (h : m.Running s) (hs : s.Sound) (hj : j ≠ m.task) (hact : s.Acts j s') :
    m.Running s' := by
  obtain ⟨context, task, hc, hi, hin, hjob, htypes, hstage⟩ := h.stage
  obtain ⟨other, next, hother, hturn, hnext⟩ := hact.exists_turn
  have hk := hs.tasks other (List.mem_of_getElem? hother)
  obtain ⟨hcontext, hactive, hbenign⟩ : s'.manager.contexts[m.id]? = some context ∧
      (s'.manager.table.entry m.job).active = some m.id ∧
      (next.job? s'.manager = some m.job → next.Benign m.types m.id) := by
    by_cases hown : other.job? s.manager = some m.job
    · obtain ⟨hcontext, hactive, hbenign⟩ := hturn.of_benign hs.manager hk
        (h.benign j other hother hj hown) hown h.active hc htypes
        (MergeContext.not_isOpen_of_merging hin.merging)
      exact ⟨hcontext, hactive, fun hnow => hbenign.resolve_right (by simp [hnow])⟩
    · have hspares := hturn.effect.spares hs.manager hk hown
      exact ⟨(hspares.contexts m.id context hjob).mpr hc, hspares.active.trans h.active,
        fun hnow => absurd ((hturn.keeps hs.manager hk).2 _ hnow) hown⟩
  refine ⟨h.reached.tail (.act j hact), hactive, fun place found hplace hne hown => ?_, context,
    task, hcontext, (hact.other hj.symm).trans hi, hin, hjob, htypes, hstage.step (.act j hact)⟩
  by_cases hplaces : place = j
  · subst hplaces
    cases hnext.symm.trans hplace
    exact hbenign hown
  · obtain ⟨hplace, hown⟩ := hact.job?_other hs hplaces hplace hown
    exact h.benign place found hplace hne hown

/-- Once settled, the merge sends its outcome, and nothing else is sent. -/
theorem Settled.turn (h : m.Settled s) (hs : s.Sound) (hact : s.Acts j s') : m.Settled s' := by
  obtain ⟨context, outcome, hc, htypes, hmerging, hcomes, hpublishes⟩ := h.publishes
  have hlt := (List.getElem?_eq_some_iff.mp hc).1
  obtain ⟨task, _, htask, -⟩ := hact.exists_turn
  obtain ⟨next, hturn, hm, htasks⟩ := hact.moves hs htask
  have hnext : s'.tasks[j]? = some next := by
    rw [htasks, List.getElem?_set_self (List.getElem?_eq_some_iff.mp htask).1]
  have hinactive : ∀ job, (s'.manager.table.entry job).active ≠ some m.id := by
    intro job ha
    rcases hm.active hs.manager.distinct ha with hold | ⟨hnew, -⟩
    · exact h.inactive job hold
    · exact Nat.ne_of_lt hlt hnew
  by_cases hj : j = m.task
  · subst hj
    refine ⟨hinactive, fun place other hplace hne => ?_, ?_⟩
    · exact h.others place other ((hact.other hne).symm.trans hplace) hne
    rcases hpublishes with ⟨hi, hclosed, hnone⟩ | ⟨hi, hsent⟩
    · cases hi.symm.trans htask
      generalize Task.record? s.manager _ = record at hm
      obtain ⟨found, hfound, ⟨after, hw, -, hcontexts, -⟩ | ⟨_, hretiring, -⟩⟩ :=
        hm.of_context? rfl
      · cases hfound.symm.trans hc
        cases hw
        refine ⟨_, outcome, by rw [hcontexts, List.getElem?_set_self hlt], ?_, ?_,
          hcomes.step (.act _ hact), .inr ⟨hnext, ?_⟩⟩ <;>
          simp [MergeContext.publish, hclosed, htypes, hmerging]
      · cases hretiring
    · cases hi.symm.trans htask
      obtain ⟨rfl, hsame⟩ := hturn.of_ended
      exact ⟨context, outcome, hsame ▸ hc, htypes, hmerging, hcomes.step (.act _ hact),
        .inr ⟨hnext, hsent⟩⟩
  · have hown (hid : task.context? = some m.id) :=
      hm.of_bystander (h.others j task htask hj hid) hc
        (MergeContext.not_isOpen_of_merging hmerging)
    refine ⟨hinactive, fun place other hplace hne hid => ?_, context, outcome, ?_, htypes,
      hmerging, hcomes.step (.act _ hact), by rwa [hact.other (Ne.symm hj)]⟩
    · by_cases hplaces : place = j
      · subst hplaces
        cases hnext.symm.trans hplace
        rcases hturn.leads.context? hid with hold | ⟨job, -, ha⟩ | hnew
        · rw [(hown hold).2] at hid
          cases hid
        · exact absurd ha (h.inactive job)
        · exact absurd hnew (Nat.ne_of_lt hlt)
      · exact h.others place other ((hact.other hplaces).symm.trans hplace) hne hid
    · by_cases hid : task.context? = some m.id
      · rw [(hown hid).1, hc]
      · exact hturn.effect.contexts hid hc

theorem Running.reaches (h : m.Running s) (hs : s.Sound) (hrun : s.Reaches s') :
    m.Running s' ∨ m.Settled s' := by
  induction hrun with
  | refl => exact .inl h
  | @tail a b hrun hstep ih =>
    have ha := Reaches.sound hrun hs
    cases hstep with
    | act j hact =>
      rcases ih with hrunning | hsettled
      · by_cases hj : j = m.task
        · subst hj
          exact hrunning.own ha hact
        · exact .inl (hrunning.other ha hj hact)
      · exact .inr (hsettled.turn ha hact)
    | tick now hle =>
      have htick := Step.tick now hle
      refine ih.imp (fun hrunning => ?_) fun hsettled => ?_
      · obtain ⟨context, task, hc, hi, hin, hjob, htypes, hstage⟩ := hrunning.stage
        exact ⟨hrunning.reached.tail htick, hrunning.active, hrunning.benign, context, task, hc, hi,
          hin, hjob, htypes, hstage.step htick⟩
      · obtain ⟨context, outcome, hc, htypes, hmerging, hcomes, hpublishes⟩ := hsettled.publishes
        exact ⟨hsettled.inactive, hsettled.others, context, outcome, hc, htypes, hmerging,
          hcomes.step htick, hpublishes⟩

theorem sentAt_merge (h : m.Running s ∨ m.Settled s) :
    (s.sentAt m.id = none ∨ ∃ outcome, m.Comes outcome s ∧ s.sentAt m.id = some outcome) ∧
      ∀ result, s.tasks[m.task]? = some (.ended result) →
        result = .ok .completed ∧ (s.sentAt m.id).isSome = true := by
  rcases h with hrunning | hsettled
  · obtain ⟨context, task, hc, hi, hin, -, -, hstage⟩ := hrunning.stage
    refine ⟨.inl (by simp [sentAt, hc, hin.outcome]), fun result hended => ?_⟩
    cases hi.symm.trans hended
    cases hstage
  · obtain ⟨context, outcome, hc, -, -, hcomes, ⟨hi, -, hnone⟩ | ⟨hi, hsome⟩⟩ := hsettled.publishes
    · refine ⟨.inl (by simp [sentAt, hc, hnone]), fun result hended => ?_⟩
      cases hi.symm.trans hended
    · refine ⟨.inr ⟨outcome, hcomes, by simp [sentAt, hc, hsome]⟩, fun result hended => ?_⟩
      cases hi.symm.trans hended
      exact ⟨rfl, by simp [sentAt, hc, hsome]⟩

theorem shut (h : m.Running s ∨ m.Settled s) : ∃ context, s.manager.contexts[m.id]? = some context ∧
    context.inputTypes = m.types ∧ context.merging = true := by
  rcases h with hrunning | hsettled
  · obtain ⟨context, task, hc, -, hin, -, htypes, -⟩ := hrunning.stage
    exact ⟨context, hc, htypes, hin.merging⟩
  · obtain ⟨context, outcome, hc, htypes, hmerging, -⟩ := hsettled.publishes
    exact ⟨context, hc, htypes, hmerging⟩

end Merge

def IsLate (id : ContextId) (job : JobId) (payload : List UInt8) (s : System) (task : Task) :
    Prop :=
  task.payload? = some payload ∧ task.job? s.manager = some job ∧
      (∀ other, task.context? = some other → other = id) ∨
    task = .ended (.ok .discarded)

/-- For the retention time after it was active, a job is known as active or as ended. -/
theorem Reaches.status_registered (h : s.Reaches s') (hs : s.Sound)
    (ha : (s.manager.table.entry job).active = some id)
    (hnow : s'.manager.now < s.manager.now + s.manager.retentionMillis) :
    s'.manager.table.status job = .active id ∨ s'.manager.table.status job = .finished := by
  have hknown := h.entry (P := (·.Registered id s.manager.now)) hs (.inl ha) (Nat.le_refl _) hnow
    fun hnext hr hle hlt => hnext.registered hr hle hlt
  exact hknown.imp JobTable.status_eq_active.mpr fun ⟨_, _, hf⟩ =>
    (h.sound hs).status_finished (by simp [hf])

theorem Merge.Running.late {m : Merge} (h : m.Running s) (hs : s.Sound) (hj : j ≠ m.task)
    (htask : s.tasks[j]? = some task) (hp : task.payload? = some payload)
    (hjob : task.job? s.manager = some m.job) (hrun : s.Reaches s')
    (hnow : s'.manager.now < s.manager.now + s.manager.retentionMillis) :
    ∃ still, s'.tasks[j]? = some still ∧ IsLate m.id m.job payload s' still := by
  obtain ⟨request, hd, honly⟩ : ∃ request, Request.decode m.types payload = .ok request ∧
      ∀ other, task.context? = some other → other = m.id := by
    cases h.benign j task htask hj hjob with
    | request hown hd honly =>
      cases hown.symm.trans hp
      exact ⟨_, hd, honly⟩
    | _ => cases hp
  induction hrun with
  | refl => exact ⟨task, htask, .inl ⟨hp, hjob, honly⟩⟩
  | @tail a b hrun hstep ih =>
    have ha := Reaches.sound hrun hs
    have hle := hstep.clock.1
    obtain ⟨still, hstill, hlate⟩ := ih (by omega)
    cases hstep with
    | tick => exact ⟨still, hstill, hlate⟩
    | act i hact =>
      obtain ⟨_, _, -, hturn, -⟩ := hact.exists_turn
      by_cases hi : j = i
      · subst hi
        obtain ⟨context, hc, htypes, hmerging⟩ := Merge.shut (h.reaches hs hrun)
        obtain ⟨next, hown, hnext⟩ := hact.own hstill
        rcases hlate with ⟨hp, hjob, honly⟩ | rfl
        · obtain ⟨hcontexts, -, hgoes⟩ :=
            (hown.moves (ha.tasks still (List.mem_of_getElem? hstill))).late hp hd hjob honly
              (Reaches.status_registered hrun hs h.active (by omega)) hc htypes
              (MergeContext.not_isOpen_of_merging hmerging)
          refine ⟨next, hnext, hgoes.imp_left fun ⟨hp, hjob, honly⟩ => ⟨hp, ?_, honly⟩⟩
          exact hown.effect.job? hjob
        · obtain ⟨rfl, -⟩ := hown.of_ended
          exact ⟨_, hnext, .inr rfl⟩
      · rw [← hact.other hi] at hstill
        exact ⟨still, hstill, hlate.imp_left fun ⟨hp, hjob, honly⟩ =>
          ⟨hp, hturn.effect.job? hjob, honly⟩⟩

-- ---------------------------------------------------------------------------
-- The outcome is that of the merge
-- ---------------------------------------------------------------------------

/-- A request gets the answer that all producers of its job have finished, and nothing else is about
the job than requests that can be decoded, and registrations.

Whatever turns are taken from then on, the owner of the job gets the outcome of merging the accepted
rows, and gets it before the request that was last ends. Every other request that is under way while
the job is still active is discarded; it needs only to be answered before the job is forgotten,
which is not before the retention time has passed. -/
theorem late_requests_discarded (h : s.Reachable)
    (hi : s.tasks[i]? = some (.handing payload job id)) (hact : s.Acts i s')
    (hready : s'.tasks[i]? = some (.gathering id))
    (hactive : (s.manager.table.entry job).active = some id)
    (hc : s'.manager.contexts[id]? = some context)
    (hothers : ∀ j task, s'.tasks[j]? = some task → j ≠ i → task.job? s'.manager = some job →
      task.Benign context.inputTypes id) :
    ∃ chain, context.chain = some chain ∧ ∀ later, s'.Reaches later →
      (later.sentAt id = none ∨ ∃ between, s'.Reaches between ∧ between.Reaches later ∧
        later.sentAt id = some
          (chain.execute .cluster false (Bucket.concat context.buckets) between.manager.sink).1) ∧
      (∀ result, later.tasks[i]? = some (.ended result) →
        result = .ok .completed ∧ (later.sentAt id).isSome = true) ∧
      ∀ j task own last, j ≠ i → later.tasks[j]? = some task → task.payload? = some own →
        task.job? later.manager = some job →
        (later.manager.table.entry job).active = some id → later.Reaches last →
        last.manager.now < later.manager.now + later.manager.retentionMillis →
        ∃ still, last.tasks[j]? = some still ∧
          (still.payload? = some own ∨ still = .ended (.ok .discarded)) := by
  have hs' := hact.sound h.sound
  obtain ⟨found, chain, hfound, hin, hjob, hchain, htable⟩ := h.ready hi hact hready hactive
  cases hfound.symm.trans hc
  let m : Merge := ⟨i, job, id, context.inputTypes, chain, context.buckets, s'⟩
  have hrunning : m.Running s' := ⟨.refl, htable ▸ hactive, hothers, context, _, hc, hready, hin,
    hjob, rfl, .gathering hchain rfl⟩
  refine ⟨chain, hchain, fun later hlater => ?_⟩
  have hgoing := hrunning.reaches hs' hlater
  obtain ⟨hsent, hended⟩ := Merge.sentAt_merge hgoing
  refine ⟨?_, hended, fun j task own last hj htask hp hown hstill hlast hnow => ?_⟩
  · rcases hsent with hnone | ⟨_, ⟨between, hfirst, hlast, rfl⟩, hsome⟩
    · exact .inl hnone
    · exact .inr ⟨between, hfirst, hlast, hsome⟩
  · have hsound := hlater.sound hs'
    obtain ⟨still, hat, hlate⟩ : ∃ still, last.tasks[j]? = some still ∧
        IsLate m.id m.job own last still := by
      rcases hgoing with hgoing | hsettled
      · exact hgoing.late hsound hj htask hp hown hlast hnow
      · exact absurd hstill (hsettled.inactive job)
    exact ⟨still, hat, hlate.imp_left And.left⟩

/-- The last request of a job is followed by another one, which comes before the merge has begun. -/
theorem late_requests_discarded_second :
    let context := MergeContext.fresh ⟨.nil, [.long], [], 1⟩ ⟨[]⟩
    let start : System :=
      ⟨.start 10 1000 .info .empty, [.registering context, .arrived lastRows, .arrived lastRows]⟩
    let looking : System := ⟨start.manager.increment .requestsReceived,
      [.registering context, .looking lastRows .nil 10 0 false, .arrived lastRows]⟩
    let s := ((looking.move 0).move 0).move 1
    let later := ((s.move 1).play [2, 2, 2, 1, 1, 1, 1]).2
    s.Reachable ∧ s.tasks[1]? = some (.handing lastRows .nil 0) ∧
      (s.manager.table.entry .nil).active = some 0 ∧
      (s.move 1).tasks[1]? = some (.gathering 0) ∧
      (s.move 1).tasks[2]? = some (.arrived lastRows) ∧
      later.tasks[2]? = some (.ended (.ok .discarded)) ∧
      (later.sentAt 0).isSome = true := by
  intro context start looking s later
  have hcontext : MergeContext.create ⟨.nil, [.long], [], 1⟩ ⟨[]⟩ = .ok context :=
    MergeContext.create_eq _ (by decide)
  have hstart : start.Starts := by
    refine ⟨⟨10, 1000, .info, .empty, rfl⟩, ?_⟩
    simp only [start, List.forall_mem_cons]
    exact ⟨.register hcontext, .receive _, .receive _, List.forall_mem_nil _⟩
  have hreachable : s.Reachable := ⟨start, hstart,
    .head (.act 1 (.turn rfl (.step (step_lastRows _)))) <|
      ((reaches_move looking 0).trans (reaches_move _ 0)).trans (reaches_move _ 1)⟩
  have hactive : (s.manager.table.entry .nil).active = some 0 := rfl
  have hhanding : s.tasks[1]? = some (.handing lastRows .nil 0) := rfl
  let request : Request := ⟨.nil, 0, 0, true, .rows (.materialized [])⟩
  obtain ⟨hgathering, hmerging⟩ : (s.move 1).tasks[1]? = some (.gathering 0) ∧
      (s.move 1).manager.contexts[0]? = some (context.accept request).2 := by
    obtain ⟨next, -, hm, htasks⟩ := (acts_move hhanding).moves hreachable.sound hhanding
    obtain ⟨-, found, hfound, ⟨error, hd, -⟩ | ⟨request, hd, -, rfl, hcontexts⟩⟩ := hm.handing
    · cases hfound
      cases hd.symm.trans decode_lastRows
    · cases hfound
      cases hd.symm.trans decode_lastRows
      rw [htasks, hcontexts]
      exact ⟨rfl, rfl⟩
  have hothers : ∀ j task, (s.move 1).tasks[j]? = some task → j ≠ 1 →
      task.job? (s.move 1).manager = some .nil →
      task.Benign (context.accept request).2.inputTypes 0 := by
    rintro (_ | _ | _ | j) task hj hne hjob
    · cases hj
      cases hjob
    · exact absurd rfl hne
    · cases hj
      exact .request rfl decode_lastRows fun _ => nofun
    · cases hj
  obtain ⟨chain, -, hlater⟩ := late_requests_discarded hreachable hhanding (acts_move hhanding)
    hgathering hactive hmerging hothers
  have hlast : (s.move 1).Reaches later := (runs_play _ _).reaches
  obtain ⟨-, -, hlate⟩ := hlater (s.move 1) .refl
  obtain ⟨still, hstill, hdone⟩ := hlate 2 _ lastRows later (by decide) rfl rfl
    (by simp [Task.job?, peek_lastRows, Except.toOption]) (by decide +kernel) hlast
    (by decide +kernel)
  have hgone : later.tasks[2]?.bind (·.payload?) = none := by decide +kernel
  have hsome : (later.sentAt 0).isSome = true := by decide +kernel
  refine ⟨hreachable, hhanding, hactive, hgathering, rfl, ?_, hsome⟩
  rcases hdone with hp | rfl
  · rw [hstill, Option.bind_some, hp] at hgone
    cases hgone
  · exact hstill

/-- All producers have finished when a request without columns comes. Its error ends the job, and
the owner gets the error although the merge comes to an outcome, which is counted. -/
theorem late_request_fails_job :
    let context := MergeContext.fresh ⟨.nil, [.long], [], 1⟩ ⟨[]⟩
    let start : System :=
      ⟨.start 10 1000 .info .empty, [.registering context, .arrived lastRows, .arrived probe]⟩
    let ready := start.play [0, 0, 1, 1, 1]
    let last := ready.2.play [2, 2, 2, 1, 1, 2, 2, 2, 1, 1]
    let error : EngineError :=
      .serialization s!"request for job {JobId.nil} carries 0 columns, expected 1"
    start.Starts ∧ start.Runs ready.1 ready.2 ∧ .answered 0 (.ok .ready) ∈ ready.1 ∧
      (ready.2.manager.table.entry .nil).active = some 0 ∧
      (ready.2.tasks[2]?.bind (·.payload?)) = some probe ∧
      start.Runs (ready.1 ++ last.1) last.2 ∧ .merged 0 (.ok []) ∈ last.1 ∧
      last.2.sentAt 0 = some (.error error) := by
  intro context start ready last error
  have hstart : start.Starts := by
    refine ⟨⟨10, 1000, .info, .empty, rfl⟩, ?_⟩
    have hcontext : MergeContext.create ⟨.nil, [.long], [], 1⟩ ⟨[]⟩ = .ok context :=
      MergeContext.create_eq _ (by decide)
    simp only [start, List.forall_mem_cons]
    exact ⟨.register hcontext, .receive _, .receive _, List.forall_mem_nil _⟩
  have hready : start.Runs ready.1 ready.2 := runs_play ..
  exact ⟨hstart, hready, by decide +kernel, by decide +kernel, by decide +kernel,
    runs_play_append _ hready, by decide +kernel, by decide +kernel⟩

end System

end ShardQuery
