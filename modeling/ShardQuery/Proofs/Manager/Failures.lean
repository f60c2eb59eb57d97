import ShardQuery.Proofs.Context.Failures
import ShardQuery.Proofs.Manager.Deliveries
/-!
# Jobs with a producer that failed

The request of a producer that failed ends the job as soon as it reaches the context. The
requests of the other producers may come before or after it, and other producers may
fail, too.

`failures_end_job`: in every order of all turns the merge never begins, and the owner of
the job gets the error of one of the failures. Requests that look for the job after its
end are discarded.
-/

namespace ShardQuery

namespace Task

variable {manager : Manager} {task next : Task} {record : Option Record}
  {contexts : List MergeContext} {table : JobTable} {id : ContextId}

theorem Moves.merging_of_isReady {r : Record} (h : Moves manager task record next contexts table)
    (hr : record = some r) (hready : r.isReady id = true) :
    ∃ after, contexts[id]? = some after ∧ after.merging = true := by
  cases h with
  | @works _ _ _ own context after _ hc hw =>
    have hid : own = id := by
      by_contra hne
      have hzero := hw.isReady_ne hne
      simp [hr, hready] at hzero
    subst hid
    refine ⟨after, List.getElem?_set_self (List.getElem?_eq_some_iff.mp hc).1, ?_⟩
    have hmerging := hw.merging
    rw [hr, tally_some, hready] at hmerging
    cases hm : after.merging with
    | true => rfl
    | false => simp [hm] at hmerging
  | completes | fails | cancels =>
    cases hr
    cases hready
  | _ => cases hr

theorem Moves.isMerge_of_merged {outcome : JobOutcome}
    (h : Moves manager task record next contexts table)
    (hr : record = some (.merged id outcome)) : task.isMerge id = true := by
  cases h with
  | works _ _ hw =>
    cases hw with
    | merges =>
      cases hr
      simp [isMerge]
    | _ => cases hr
  | _ => cases hr

end Task

namespace System

variable {s s' later : System} {history : History} {i j : Nat} {task next : Task}
  {context : MergeContext} {payload : List UInt8} {request : Request}

/-- A job with a producer that failed: its context, and the requests that are on their way. -/
structure Report where
  job : JobId
  id : ContextId
  types : List DataType
  chain : Chain
  requests : List Request

namespace Report

variable {m : Report} {message : String} {record : Option Record} {contexts : List MergeContext}
  {table : JobTable}

def Tells (m : Report) (message : String) : Prop := ∃ r ∈ m.requests, r.payload = .failure message

def Promises (m : Report) (task : Task) : Prop :=
  ∃ message, m.Tells message ∧ task.promise? = some (m.id, .error (.remote message))

def pending (m : Report) (s : System) : List Request := s.incoming m.types m.job

structure Owns (m : Report) (context : MergeContext) : Prop where
  job : context.job = m.job
  inputTypes : context.inputTypes = m.types
  chain : context.chain = some m.chain

/-- The context takes requests. What it does not take itself, of all that was on its way, is lost to
it. -/
structure Gathers (m : Report) (s : System) (context : MergeContext) : Prop where
  outcome : context.outcome = none
  awaits : ∃ lost, context.Awaits (m.pending s ++ lost)

/-- What tasks are about while the job is active: requests, and the errors of failures. -/
def Minds (m : Report) (task : Task) : Prop :=
  task.Benign m.types m.id ∨
    ∃ message result, m.Tells message ∧ task = .failing m.job (.remote message) result

def Fails (m : Report) (task : Task) : Prop :=
  (∃ request, task.brings? m.types m.job = some request ∧ request.isFailure = true) ∨
    ∃ message result, task = .failing m.job (.remote message) result

structure Active (m : Report) (s : System) : Prop where
  active : (s.manager.table.entry m.job).active = some m.id
  tasks : ∀ task ∈ s.tasks, task.job? s.manager = some m.job → m.Minds task
  failure : ∃ task ∈ s.tasks, m.Fails task
  context : ∃ context, s.manager.contexts[m.id]? = some context ∧ m.Owns context ∧
    m.Gathers s context

def Closes (m : Report) (s : System) (context : MergeContext) : Prop :=
  m.Gathers s context ∧ (∃ task ∈ s.tasks, m.Promises task) ∨
    context.closed = true ∧ context.merging = false ∧
      ∃ message, m.Tells message ∧ context.outcome = some (.error (.remote message))

structure Ended (m : Report) (s : System) : Prop where
  inactive : ∀ job, (s.manager.table.entry job).active ≠ some m.id
  tasks : ∀ task ∈ s.tasks, task.context? = some m.id → task.Bystander m.id ∨ m.Promises task
  context : ∃ context, s.manager.contexts[m.id]? = some context ∧ m.Owns context ∧
    m.Closes s context

structure Course (m : Report) (s : System) : Prop where
  decodes : ∀ task ∈ s.tasks, ∀ payload, task.delivery? = some (m.job, payload) →
    ∃ request, Request.decode m.types payload = .ok request
  comes : ∀ r ∈ m.pending s, r ∈ m.requests
  phase : m.Active s ∨ m.Ended s

-- ---------------------------------------------------------------------------
-- Requests on their way
-- ---------------------------------------------------------------------------

theorem pending_turn (hi : s.tasks[i]? = some task) (htasks : s'.tasks = s.tasks.set i next) :
    (m.pending s' ++ (task.brings? m.types m.job).toList).Perm
      (m.pending s ++ (next.brings? m.types m.job).toList) := by
  rw [pending, incoming, htasks]
  exact perm_filterMap_set hi next _

theorem pending_delivered (hi : s.tasks[i]? = some task) (htasks : s'.tasks = s.tasks.set i next)
    (hbrings : task.brings? m.types m.job = some request)
    (hnext : next.brings? m.types m.job = none) :
    (request :: m.pending s').Perm (m.pending s) := by
  have hturn := pending_turn (m := m) hi htasks
  rw [hbrings, hnext, Option.toList_some, Option.toList_none, List.append_nil] at hturn
  exact (List.perm_append_singleton request _).symm.trans hturn

theorem brings_turn (hm : Task.Moves s.manager task record next contexts table) :
    next.brings? m.types m.job = task.brings? m.types m.job ∨
      next.brings? m.types m.job = none := by
  rcases hm.delivery? with hsame | hnone
  · exact .inl (by rw [Task.brings?, hsame]; rfl)
  · exact .inr (by rw [Task.brings?, hnone]; rfl)

theorem pending_lost (hi : s.tasks[i]? = some task) (htasks : s'.tasks = s.tasks.set i next)
    (hm : Task.Moves s.manager task record next contexts table) :
    ∃ lost, (m.pending s' ++ lost).Perm (m.pending s) := by
  rcases brings_turn (m := m) hm with hsame | hnone
  · have hturn := pending_turn (m := m) hi htasks
    rw [hsame] at hturn
    exact ⟨[], by simpa using (List.perm_append_right_iff _).mp hturn⟩
  · have hturn := pending_turn (m := m) hi htasks
    rw [hnone, Option.toList_none, List.append_nil] at hturn
    exact ⟨_, hturn⟩

theorem Gathers.turn (h : m.Gathers s context) (hi : s.tasks[i]? = some task)
    (htasks : s'.tasks = s.tasks.set i next)
    (hm : Task.Moves s.manager task record next contexts table) : m.Gathers s' context := by
  obtain ⟨lost, hawaits⟩ := h.awaits
  obtain ⟨more, hperm⟩ := pending_lost (m := m) hi htasks hm
  refine ⟨h.outcome, more ++ lost, hawaits.perm ?_⟩
  rw [← List.append_assoc]
  exact (hperm.append_right lost).symm

theorem Owns.accept (h : m.Owns context) (request : Request) :
    m.Owns (context.accept request).2 := by
  have hun := context.untouched_accept request
  exact ⟨hun.job.trans h.job, hun.inputTypes.trans h.inputTypes, hun.chain.trans h.chain⟩

/-- Rows are taken, and a failure goes on to end the job. -/
theorem Gathers.hand (h : m.Gathers s context) (hown : m.Owns context)
    (hc : s.manager.contexts[m.id]? = some context)
    (hi : s.tasks[i]? = some (.handing payload m.job m.id))
    (hd : Request.decode m.types payload = .ok request)
    (hm : Task.Moves s.manager (.handing payload m.job m.id) record next s'.manager.contexts
      s'.manager.table) (htasks : s'.tasks = s.tasks.set i next) :
    s'.manager.table = s.manager.table ∧
      (∃ after, s'.manager.contexts[m.id]? = some after ∧ m.Owns after ∧ m.Gathers s' after) ∧
      (request.isFailure = false ∧ next = .ended (.ok .delivered) ∨
        ∃ message, request.payload = .failure message ∧
          next = .failing m.job (.remote message) (.ok .completed)) := by
  have hgathers := h.turn hi htasks hm
  obtain ⟨htable, found, hfound, ⟨error, hfailed, -⟩ | ⟨found, hfound', -, rfl, hcontexts⟩⟩ :=
    hm.handing
  · cases hfound.symm.trans hc
    rw [hown.inputTypes, hd] at hfailed
    cases hfailed
  cases hfound.symm.trans hc
  rw [hown.inputTypes] at hfound'
  cases hfound'.symm.trans hd
  have hlt := (List.getElem?_eq_some_iff.mp hc).1
  have hset : s'.manager.contexts[m.id]? = some (context.accept request).2 := by
    rw [hcontexts, List.getElem?_set_self hlt]
  obtain ⟨lost, hawaits⟩ := h.awaits
  cases hp : request.payload with
  | failure message =>
    rw [hawaits.accept_failure hp] at hset ⊢
    exact ⟨htable, ⟨context, hset, hown, hgathers⟩, .inr ⟨message, rfl, rfl⟩⟩
  | rows bucket =>
    have hrows : request.isFailure = false := by simp [Request.isFailure, hp]
    have hbrings : (Task.handing payload m.job m.id).brings? m.types m.job = some request :=
      Task.brings?_eq_some.mpr ⟨payload, rfl, hd⟩
    have hdelivered := pending_delivered hi htasks hbrings
      (by simp [Task.brings?, (Task.plain_replied ..).1])
    obtain ⟨hpending, hnext⟩ :=
      (hawaits.perm (hdelivered.symm.append_right lost)).accept_rows hrows
    refine ⟨htable, ⟨_, hset, hown.accept request, ?_, lost, hnext⟩, .inl ⟨hrows, ?_⟩⟩
    · exact (context.untouched_accept request).outcome.trans h.outcome
    · rw [hpending]
      rfl

-- ---------------------------------------------------------------------------
-- While the job is active
-- ---------------------------------------------------------------------------

theorem Active.still (h : m.Active s) (hs : s.Sound) (hact : s.Acts i s')
    (hi : s.tasks[i]? = some task) (htasks : s'.tasks = s.tasks.set i next)
    (hactive : (s'.manager.table.entry m.job).active = some m.id)
    (hnext : next.job? s'.manager = some m.job → m.Minds next)
    (hfails : m.Fails task → m.Fails next)
    (hcontext : ∃ context, s'.manager.contexts[m.id]? = some context ∧ m.Owns context ∧
      m.Gathers s' context) : m.Active s' := by
  refine ⟨hactive, tasks_turn hs hact htasks h.tasks hnext, ?_, hcontext⟩
  obtain ⟨other, hmem, hother⟩ := h.failure
  rcases mem_turn hi htasks hmem with rfl | hmem
  · exact ⟨next, mem_next hi htasks, hfails hother⟩
  · exact ⟨other, hmem, hother⟩

theorem job?_of_brings (h : task.brings? m.types m.job = some request) :
    task.job? s.manager = some m.job := by
  obtain ⟨payload, hdelivery, -⟩ := Task.brings?_eq_some.mp h
  exact (Task.delivery?_eq_some.mp hdelivery).2

theorem Fails.job? (h : m.Fails task) : task.job? s.manager = some m.job := by
  rcases h with ⟨request, hbrings, -⟩ | ⟨message, result, rfl⟩
  · exact job?_of_brings hbrings
  · rfl

theorem not_fails (h : task.registers = true) : ¬ m.Fails task := by
  rintro (⟨request, hbrings, -⟩ | ⟨message, result, rfl⟩)
  · obtain ⟨payload, hdelivery, -⟩ := Task.brings?_eq_some.mp hbrings
    cases task <;> cases h <;> cases hdelivery
  · cases h

theorem Active.comes (h : m.Active s) (hcourse : m.Course s) (hs : s.Sound) (hact : s.Acts i s')
    (hi : s.tasks[i]? = some task) (hp : task.payload? = some payload)
    (hd : Request.decode m.types payload = .ok request)
    (hjob : task.job? s.manager = some m.job)
    (honly : ∀ other, task.context? = some other → other = m.id) : m.Active s' := by
  obtain ⟨next, hturn, hm, htasks⟩ := hact.moves hs hi
  obtain ⟨context, hc, hown, hgathers⟩ := h.context
  have hbrings : task.brings? m.types m.job = some request :=
    Task.brings?_eq_some.mpr ⟨payload, Task.delivery?_eq_some.mpr ⟨hp, hjob⟩, hd⟩
  have hstatus := JobTable.status_eq_active.mpr h.active
  rcases hm.onItsWay hp hjob honly (.inl hstatus) with
    rfl | ⟨hcontexts, htable, ⟨hp', hjob', honly'⟩ | ⟨hfinished, -⟩⟩
  · obtain ⟨htable, hafter, hnext⟩ := hgathers.hand hown hc hi hd hm htasks
    refine h.still hs hact hi htasks (htable ▸ h.active) (fun hjob' => ?_) (fun hfails => ?_) hafter
    · rcases hnext with ⟨-, rfl⟩ | ⟨message, hp, rfl⟩
      · cases hjob'
      · have hmem := List.mem_filterMap.mpr ⟨_, List.mem_of_getElem? hi, hbrings⟩
        exact .inr ⟨message, _, ⟨request, hcourse.comes request hmem, hp⟩, rfl⟩
    · rcases hnext with ⟨hrows, rfl⟩ | ⟨message, -, rfl⟩
      · rcases hfails with ⟨found, hfound, hfailure⟩ | ⟨_, _, hfailing⟩
        · cases hfound.symm.trans hbrings
          simp [hrows] at hfailure
        · cases hfailing
      · exact .inr ⟨message, _, rfl⟩
  · refine h.still hs hact hi htasks (htable ▸ h.active)
      (fun _ => .inl (.request hp' hd honly')) (fun hfails => ?_)
      ⟨context, hcontexts ▸ hc, hown, hgathers.turn hi htasks hm⟩
    have hbrings' : next.brings? m.types m.job = some request :=
      Task.brings?_eq_some.mpr ⟨payload, Task.delivery?_eq_some.mpr ⟨hp', hjob'⟩, hd⟩
    rcases hfails with ⟨found, hfound, hfailure⟩ | ⟨_, _, rfl⟩
    · cases hfound.symm.trans hbrings
      exact .inl ⟨_, hbrings', hfailure⟩
    · cases hp
  · cases hstatus.symm.trans hfinished

theorem Active.fails {result : DeliveryResult} (h : m.Active s) (hs : s.Sound) (hact : s.Acts i s')
    (htells : m.Tells message)
    (hi : s.tasks[i]? = some (.failing m.job (.remote message) result)) : m.Ended s' := by
  obtain ⟨next, hturn, hm, htasks⟩ := hact.moves hs hi
  obtain ⟨context, hc, hown, hgathers⟩ := h.context
  have hat : s.manager.jobAt m.id = some m.job := by simp [Manager.jobAt, hc, hown.job]
  have hlost := hgathers.turn hi htasks hm
  obtain ⟨hcontexts, htable, rfl⟩ : s'.manager.contexts = s.manager.contexts ∧
      s'.manager.table = s.manager.retired m.job ∧
      next = .stopping m.id (.remote message) result := by
    generalize Task.record? s.manager _ = record at hm
    generalize s'.manager.contexts = contexts at hm ⊢
    generalize s'.manager.table = table at hm ⊢
    cases hm with
    | fails _ _ ha =>
      cases ha.symm.trans h.active
      exact ⟨rfl, rfl, rfl⟩
    | misses _ hr hnone =>
      cases hr
      cases hnone.symm.trans h.active
    | works hid => cases hid
    | seeks hseeks =>
      cases hseeks with
      | late hl => cases hl
    | finds hl => cases hl
  have hpromises : m.Promises (.stopping m.id (.remote message) result) := ⟨message, htells, rfl⟩
  refine ⟨hact.inactive hs hat htable, fun other hmem hid => ?_, context, hcontexts ▸ hc, hown,
    .inl ⟨hlost, _, mem_next hi htasks, hpromises⟩⟩
  obtain ⟨own, hat', hjob⟩ := (hact.sound hs).tasks other hmem _ hid
  obtain rfl : m.job = own := by simpa [Manager.jobAt, hcontexts, hc, hown.job] using hat'
  have hother : m.Minds other ∨ m.Promises other :=
    tasks_turn (P := fun task => m.Minds task ∨ m.Promises task) hs hact htasks
      (fun task hmem hjob => .inl (h.tasks task hmem hjob)) (fun _ => .inr hpromises) other hmem
      hjob
  rcases hother with (hb | ⟨_, _, _, rfl⟩) | hpromises
  · exact .inl (hb.bystander hid)
  · cases hid
  · exact .inr hpromises

theorem Active.turn (h : m.Active s) (hcourse : m.Course s) (hs : s.Sound) (hact : s.Acts i s') :
    m.Active s' ∨ m.Ended s' := by
  obtain ⟨task, _, hi, -⟩ := hact.exists_turn
  obtain ⟨next, hturn, hm, htasks⟩ := hact.moves hs hi
  obtain ⟨context, hc, hown, hgathers⟩ := h.context
  have hmem := List.mem_of_getElem? hi
  have hlost := hgathers.turn hi htasks hm
  by_cases hjob : task.job? s.manager = some m.job
  · rcases h.tasks task hmem hjob with hb | ⟨message, result, htells, rfl⟩
    · left
      cases hb with
      | request hp hd honly => exact h.comes hcourse hs hact hi hp hd hjob honly
      | registering own =>
        have hsame : own.job = m.job := Option.some.inj hjob
        obtain ⟨hactive, hcontexts⟩ := hturn.registering_active hs.manager h.active
        obtain ⟨rfl, -⟩ := hturn.refused hs.manager.distinct (.inl (by simp [hsame, h.active]))
        exact h.still hs hact hi htasks hactive (fun hjob => by cases hjob)
          (fun hfails => absurd hfails (not_fails rfl)) ⟨context, hcontexts.trans hc, hown, hlost⟩
      | announcing own other =>
        obtain ⟨hcontexts, htable, rfl⟩ := hm.of_announcing
        exact h.still hs hact hi htasks (htable ▸ h.active) (fun hjob => by cases hjob)
          (fun hfails => absurd hfails (not_fails rfl)) ⟨context, hcontexts ▸ hc, hown, hlost⟩
    · exact .inr (h.fails hs hact htells hi)
  · left
    have hspares := hturn.effect.spares hs.manager (hs.tasks task hmem) hjob
    exact h.still hs hact hi htasks (hspares.active.trans h.active)
      (fun hnow => absurd ((hturn.keeps hs.manager (hs.tasks task hmem)).2 _ hnow) hjob)
      (fun hfails => absurd hfails.job? hjob)
      ⟨context, (hspares.contexts m.id context hown.job).mpr hc, hown, hlost⟩

-- ---------------------------------------------------------------------------
-- Once the job has ended
-- ---------------------------------------------------------------------------

theorem Closes.turn (h : m.Closes s context) (hi : s.tasks[i]? = some task)
    (htasks : s'.tasks = s.tasks.set i next)
    (hm : Task.Moves s.manager task record next contexts table)
    (hpromises : m.Promises task → m.Promises next) : m.Closes s' context := by
  refine h.imp_left fun ⟨hgathers, other, hmem, hother⟩ => ⟨hgathers.turn hi htasks hm, ?_⟩
  rcases mem_turn hi htasks hmem with rfl | hmem
  · exact ⟨next, mem_next hi htasks, hpromises hother⟩
  · exact ⟨other, hmem, hother⟩

theorem Closes.raiseCancel (h : m.Closes s context) : m.Closes s context.raiseCancel :=
  h.imp_left fun ⟨⟨houtcome, lost, hawaits⟩, hpromises⟩ =>
    ⟨⟨houtcome, lost, hawaits.raiseCancel⟩, hpromises⟩

theorem Closes.publish (h : m.Closes s context) (htells : m.Tells message) :
    m.Closes s' (context.publish (.error (.remote message))) := by
  right
  rcases h with ⟨⟨-, lost, hawaits⟩, -⟩ | ⟨hclosed, hmerging, hsent⟩
  · obtain ⟨hclosed, hmerging⟩ := hawaits.isOpen
    simp [MergeContext.publish, hclosed, hmerging, htells]
  · simpa [MergeContext.publish, hclosed, hmerging] using hsent

theorem Owns.publish (h : m.Owns context) (outcome : JobOutcome) :
    m.Owns (context.publish outcome) := by
  unfold MergeContext.publish
  split
  · exact h
  · exact ⟨h.job, h.inputTypes, h.chain⟩

theorem Ended.still (h : m.Ended s) (hs : s.Sound)
    (htasks : s'.tasks = s.tasks.set i next)
    (hm : Task.Moves s.manager task record next s'.manager.contexts s'.manager.table)
    (hnext : next.context? = some m.id → next.Bystander m.id ∨ m.Promises next)
    (hcontext : ∃ context, s'.manager.contexts[m.id]? = some context ∧ m.Owns context ∧
      m.Closes s' context) : m.Ended s' := by
  obtain ⟨context, hc, -⟩ := h.context
  refine ⟨fun job ha => ?_, fun other hmem hid => ?_, hcontext⟩
  · rcases hm.active hs.manager.distinct ha with hold | ⟨hnew, -⟩
    · exact h.inactive job hold
    · exact Nat.ne_of_lt (List.getElem?_eq_some_iff.mp hc).1 hnew
  · rw [htasks] at hmem
    rcases List.mem_or_eq_of_mem_set hmem with hmem | rfl
    · exact h.tasks other hmem hid
    · exact hnext hid

theorem Ended.publishes (h : m.Ended s) (hs : s.Sound) (hact : s.Acts i s')
    (hi : s.tasks[i]? = some task) (htells : m.Tells message)
    (hp : task.promise? = some (m.id, .error (.remote message))) : m.Ended s' := by
  obtain ⟨next, -, hm, htasks⟩ := hact.moves hs hi
  obtain ⟨context, hc, hown, hcloses⟩ := h.context
  have hid := Task.context?_of_promise? hp
  have hstill := h.still hs htasks hm
  have hset (after : MergeContext) (hcontexts : s'.manager.contexts =
      s.manager.contexts.set m.id after) : s'.manager.contexts[m.id]? = some after := by
    rw [hcontexts, List.getElem?_set_self (List.getElem?_eq_some_iff.mp hc).1]
  have hturn := hcloses.turn hi htasks hm
  generalize Task.record? s.manager task = record at hm
  obtain ⟨found, hfound, ⟨after, hw, -, hcontexts, -⟩ | ⟨_, rfl, -⟩⟩ := hm.of_context? hid
  · cases hfound.symm.trans hc
    cases hw with
    | stops error result =>
      cases hp
      have hpromises : m.Promises (.publishing m.id (.error (.remote message)) result) :=
        ⟨message, htells, rfl⟩
      exact hstill (fun _ => .inr hpromises) ⟨_, hset _ hcontexts,
        ⟨hown.job, hown.inputTypes, hown.chain⟩, (hturn fun _ => hpromises).raiseCancel⟩
    | publishes outcome result =>
      cases hp
      exact hstill (fun hid => by cases hid)
        ⟨_, hset _ hcontexts, hown.publish _, hcloses.publish htells⟩
    | _ => cases hp
  · cases hp

theorem Ended.turn (h : m.Ended s) (hcourse : m.Course s) (hs : s.Sound) (hact : s.Acts i s') :
    m.Ended s' := by
  obtain ⟨task, _, hi, -⟩ := hact.exists_turn
  obtain ⟨next, hturn, hm, htasks⟩ := hact.moves hs hi
  obtain ⟨context, hc, hown, hcloses⟩ := h.context
  have hmem := List.mem_of_getElem? hi
  have hstill := h.still hs htasks hm
  have hkept := hcloses.turn hi htasks hm
  by_cases hid : task.context? = some m.id
  · rcases h.tasks task hmem hid with hb | ⟨message, htells, hp⟩
    · have hquiet : ¬ m.Promises task := by
        rintro ⟨_, -, hp⟩
        cases hb <;> cases hp
      cases hb with
      | handing payload own =>
        obtain ⟨job, hat, hjob⟩ := hs.tasks _ hmem _ rfl
        cases hjob
        obtain rfl : m.job = own := by simpa [Manager.jobAt, hc, hown.job] using hat
        obtain ⟨request, hd⟩ := hcourse.decodes _ hmem payload rfl
        rcases hcloses with ⟨hgathers, other, hother, hpromises⟩ | hclosed
        · obtain ⟨-, ⟨after, hafter, hown, hgathers⟩, hnext⟩ :=
            hgathers.hand hown hc hi hd hm htasks
          have hother' := (mem_turn hi htasks hother).resolve_left fun hsame =>
            hquiet (hsame ▸ hpromises)
          refine hstill (fun hid => ?_)
            ⟨after, hafter, hown, .inl ⟨hgathers, other, hother', hpromises⟩⟩
          rcases hnext with ⟨-, rfl⟩ | ⟨_, -, rfl⟩ <;> cases hid
        · obtain ⟨hcontexts, hnone⟩ :=
            hm.of_bystander (.handing payload m.job) hc
              (MergeContext.not_isOpen_of_closed hclosed.1)
          exact hstill (fun hid => by simp [hnone] at hid)
            ⟨context, hcontexts ▸ hc, hown, .inr hclosed⟩
      | announcing own =>
        obtain ⟨hcontexts, -, rfl⟩ := hm.of_announcing
        exact hstill (fun hid => by cases hid)
          ⟨context, hcontexts ▸ hc, hown, hkept fun hpromises => absurd hpromises hquiet⟩
    · exact h.publishes hs hact hi htells hp
  · have hquiet : ¬ m.Promises task := by
      rintro ⟨_, -, hp⟩
      exact hid (Task.context?_of_promise? hp)
    refine hstill (fun hnow => ?_) ⟨context, hturn.effect.contexts hid hc, hown,
      hkept fun hpromises => absurd hpromises hquiet⟩
    rcases hturn.leads.context? hnow with hold | ⟨job, -, ha⟩ | hnew
    · exact absurd hold hid
    · exact absurd ha (h.inactive job)
    · exact absurd hnew (Nat.ne_of_lt (List.getElem?_eq_some_iff.mp hc).1)

-- ---------------------------------------------------------------------------
-- The whole course
-- ---------------------------------------------------------------------------

theorem Course.turn (h : m.Course s) (hs : s.Sound) (hact : s.Acts i s') : m.Course s' := by
  obtain ⟨task, _, hi, -⟩ := hact.exists_turn
  obtain ⟨next, -, hm, htasks⟩ := hact.moves hs hi
  refine ⟨fun other hmem payload hdelivery => ?_, fun r hr => ?_, ?_⟩
  · rw [htasks] at hmem
    rcases List.mem_or_eq_of_mem_set hmem with hmem | rfl
    · exact h.decodes other hmem payload hdelivery
    · rcases hm.delivery? with hsame | hnone
      · exact h.decodes task (List.mem_of_getElem? hi) payload (hsame ▸ hdelivery)
      · cases hnone.symm.trans hdelivery
  · obtain ⟨lost, hperm⟩ := pending_lost (m := m) hi htasks hm
    exact h.comes r (hperm.mem_iff.mp (List.mem_append_left lost hr))
  · rcases h.phase with hactive | hended
    · exact hactive.turn h hs hact
    · exact .inr (hended.turn h hs hact)

theorem Course.tick (h : m.Course s) (now : Nat) :
    m.Course ⟨{ s.manager with now }, s.tasks⟩ := by
  refine ⟨h.decodes, h.comes, h.phase.imp (fun hactive => ?_) fun hended => ?_⟩
  · obtain ⟨context, hc, hown, houtcome, hawaits⟩ := hactive.context
    exact ⟨hactive.active, hactive.tasks, hactive.failure, context, hc, hown, houtcome, hawaits⟩
  · obtain ⟨context, hc, hown, hcloses⟩ := hended.context
    exact ⟨hended.inactive, hended.tasks, context, hc, hown,
      hcloses.imp_left fun ⟨⟨houtcome, hawaits⟩, hpromises⟩ => ⟨⟨houtcome, hawaits⟩, hpromises⟩⟩

theorem Course.exists_context (h : m.Course s) :
    ∃ context, s.manager.contexts[m.id]? = some context ∧ m.Owns context ∧
      context.merging = false ∧ ∀ outcome, context.outcome = some outcome →
        ∃ message, m.Tells message ∧ outcome = .error (.remote message) := by
  have hgathers {context : MergeContext} (hgathers : m.Gathers s context) :
      context.merging = false ∧ ∀ outcome, context.outcome = some outcome →
        ∃ message, m.Tells message ∧ outcome = .error (.remote message) := by
    obtain ⟨lost, hawaits⟩ := hgathers.awaits
    refine ⟨hawaits.not_merging, fun outcome ho => ?_⟩
    cases hgathers.outcome.symm.trans ho
  rcases h.phase with hactive | hended
  · obtain ⟨context, hc, hown, hopen⟩ := hactive.context
    exact ⟨context, hc, hown, hgathers hopen⟩
  · obtain ⟨context, hc, hown, ⟨hopen, -⟩ | ⟨-, hmerging, message, htells, hsent⟩⟩ := hended.context
    · exact ⟨context, hc, hown, hgathers hopen⟩
    · refine ⟨context, hc, hown, hmerging, fun outcome ho => ⟨message, htells, ?_⟩⟩
      exact Option.some.inj (ho.symm.trans hsent)

theorem Course.isMerge (h : m.Course s) (hs : s.Sound) (hmem : task ∈ s.tasks) :
    task.isMerge m.id = false := by
  by_cases hid : task.context? = some m.id
  · have hshape : task.Bystander m.id ∨ m.Promises task := by
      rcases h.phase with hactive | hended
      · obtain ⟨context, hc, hown, -⟩ := hactive.context
        obtain ⟨own, hat, hjob⟩ := hs.tasks task hmem _ hid
        obtain rfl : m.job = own := by simpa [Manager.jobAt, hc, hown.job] using hat
        rcases hactive.tasks task hmem hjob with hb | ⟨_, _, _, rfl⟩
        · exact .inl (hb.bystander hid)
        · cases hid
      · exact hended.tasks task hmem hid
    rcases hshape with hb | ⟨_, _, hp⟩
    · cases hb <;> rfl
    · cases task <;> cases hp <;> rfl
  · exact Task.isMerge_of_context? task hid

theorem Course.runs (h : m.Course s) (hs : s.Sound) (hruns : s.Runs history later) :
    m.Course later ∧
      ∀ r ∈ history, r.isReady m.id = false ∧ ∀ outcome, r ≠ .merged m.id outcome := by
  induction hruns with
  | start => exact ⟨h, List.forall_mem_nil _⟩
  | tick now _ _ ih => exact ⟨ih.1.tick now, ih.2⟩
  | @act history a b i task hruns hi hact ih =>
    obtain ⟨hcourse, hhistory⟩ := ih
    have ha := hruns.reaches.sound hs
    obtain ⟨next, -, hm, -⟩ := hact.moves ha hi
    have hnext := hcourse.turn ha hact
    refine ⟨hnext, fun r hmem => ?_⟩
    rcases List.mem_append.mp hmem with hmem | hmem
    · exact hhistory r hmem
    · have hr := Option.mem_toList.mp hmem
      constructor
      · refine Bool.eq_false_iff.mpr fun hready => ?_
        obtain ⟨after, hafter, hmerging⟩ := hm.merging_of_isReady hr hready
        obtain ⟨context, hc, -, hnot, -⟩ := hnext.exists_context
        cases hafter.symm.trans hc
        cases hnot.symm.trans hmerging
      · rintro outcome rfl
        have hmerge := hm.isMerge_of_merged hr
        cases (hcourse.isMerge ha (List.mem_of_getElem? hi)).symm.trans hmerge

/-- When nothing but registrations is about the job any more, its owner has the error of a
failure. -/
theorem Course.isSome_sentAt (h : m.Course s) (hs : s.Sound)
    (hdone : ∀ task ∈ s.tasks, task.job? s.manager = some m.job → task.registers = true) :
    (s.sentAt m.id).isSome = true := by
  rcases h.phase with hactive | hended
  · obtain ⟨task, hmem, hfails⟩ := hactive.failure
    exact absurd hfails (not_fails (hdone task hmem hfails.job?))
  · obtain ⟨context, hc, hown, ⟨-, task, hmem, _, _, hp⟩ | ⟨-, -, _, _, hsent⟩⟩ := hended.context
    · obtain ⟨own, hat, hjob⟩ := hs.tasks task hmem _ (Task.context?_of_promise? hp)
      obtain rfl : m.job = own := by simpa [Manager.jobAt, hc, hown.job] using hat
      have hregisters := hdone task hmem hjob
      cases task <;> cases hp <;> cases hregisters
    · simp [sentAt, hc, hsent]

end Report

-- ---------------------------------------------------------------------------
-- What the owner gets
-- ---------------------------------------------------------------------------

/-- For the retention time after the step in which its job ends, a job is refused. -/
theorem Reachable.refuses {id : ContextId} {job : JobId} {last : System} (h : s.Reachable)
    (ha : (s.manager.table.entry job).active = some id) (hact : s.Acts i s')
    (hended : (s'.manager.table.entry job).active ≠ some id) (hrun : s'.Reaches last)
    (hnow : last.manager.now < s.manager.now + s.manager.retentionMillis) : last.Refuses job := by
  have hs := h.sound
  have hs' := hact.sound hs
  obtain ⟨_, _, -, hturn, -⟩ := hact.exists_turn
  have hfinished :=
    ((hturn.effect.entry hs.manager.distinct job).active ha).resolve_left hended
  obtain ⟨hclock, -, hretention⟩ := hturn.effect.clock
  obtain ⟨hle, -, hretention'⟩ := hrun.clock
  obtain ⟨since, hsince, hf⟩ := hrun.finished hs' hfinished (Nat.le_of_eq hclock.symm) (by omega)
  exact (hrun.sound hs').refuses hf hsince (by omega) (by omega)

/-- A job has just been registered. Besides registrations, all that is about it are the requests of
its producers: a whole stream of rows of each, in any order, or the one that reports its failure,
and there is such a report.

Whatever turns are taken from then on, the merge of the job never begins and its chain does not run.
Its owner gets nothing but the error of one of the reports, which stays, and has it when all the
requests have ended. For the retention time after the step that ends the job, every request that
looks for it is discarded. -/
theorem failures_end_job {phase : MergePhase} {chain : Chain} {id : ContextId} (h : s.Reachable)
    (hactive : (s.manager.table.entry phase.job).active = some id)
    (hc : s.manager.contexts[id]? = some (.fresh phase chain)) (hproducers : phase.producers ≠ 0)
    (htasks : ∀ task ∈ s.tasks, task.job? s.manager = some phase.job →
      task.Benign phase.inputTypes id)
    (hhonest : Request.Honest phase.producers.toNat (s.incoming phase.inputTypes phase.job))
    (hfailure : ∃ r ∈ s.incoming phase.inputTypes phase.job, r.isFailure = true)
    (hruns : s.Runs history later) :
    (∀ r ∈ history, r.isReady id = false ∧ ∀ outcome, r ≠ .merged id outcome) ∧
    (∀ outcome, later.sentAt id = some outcome →
      (∃ r ∈ s.incoming phase.inputTypes phase.job, ∃ message, r.payload = .failure message ∧
        outcome = .error (.remote message)) ∧
      ∀ last, later.Reaches last → last.sentAt id = some outcome) ∧
    ((∀ (j : Nat) (task : Task), s.tasks[j]? = some task →
        (task.brings? phase.inputTypes phase.job).isSome = true →
        ∃ result, later.tasks[j]? = some (Task.ended result)) → (later.sentAt id).isSome = true) ∧
    ∀ i next last, later.Acts i next →
      (later.manager.table.entry phase.job).active = some id →
      (next.manager.table.entry phase.job).active ≠ some id → next.Reaches last →
      last.manager.now < later.manager.now + later.manager.retentionMillis →
      last.Refuses phase.job := by
  have hs := h.sound
  let m : Report := ⟨phase.job, id, phase.inputTypes, chain, s.incoming phase.inputTypes phase.job⟩
  have hstart : m.Course s := by
    refine ⟨fun task hmem payload hdelivery => ?_, fun r hr => hr, .inl ?_⟩
    · obtain ⟨hp, hjob⟩ : task.payload? = some payload ∧ task.job? s.manager = some m.job :=
        Task.delivery?_eq_some.mp hdelivery
      cases htasks task hmem hjob with
      | request hown hd =>
        cases hown.symm.trans hp
        exact ⟨_, hd⟩
      | _ => cases hp
    · have hawaits : (MergeContext.fresh phase chain).Awaits m.requests :=
        MergeContext.awaits_fresh hproducers hhonest hfailure
      obtain ⟨r, hr, hfails⟩ := hfailure
      obtain ⟨task, hmem, hbrings⟩ := List.mem_filterMap.mp hr
      exact ⟨hactive, fun task hmem hjob => .inl (htasks task hmem hjob),
        ⟨task, hmem, .inl ⟨r, hbrings, hfails⟩⟩, _, hc, ⟨rfl, rfl, rfl⟩, rfl, [],
        hawaits.perm (by simp [Report.pending, m])⟩
  obtain ⟨hcourse, hhistory⟩ := hstart.runs hs hruns
  have hrun := hruns.reaches
  have hreachable : later.Reachable := by
    obtain ⟨start, hstarts, hfirst⟩ := h
    exact ⟨start, hstarts, hfirst.trans hrun⟩
  refine ⟨hhistory, fun outcome hsent => ⟨?_, fun last hlast => hreachable.sent_stays hsent hlast⟩,
    fun hdone => ?_, fun i next last hact ha hended hlast hnow =>
      hreachable.refuses ha hact hended hlast hnow⟩
  · obtain ⟨context, hfound, -, -, htells⟩ := hcourse.exists_context
    obtain ⟨found, hfound', houtcome⟩ := Accounts.sentAt_eq_some.mp hsent
    cases hfound.symm.trans hfound'
    obtain ⟨message, ⟨r, hr, hp⟩, rfl⟩ := htells outcome houtcome
    exact ⟨r, hr, message, hp, rfl⟩
  · refine hcourse.isSome_sentAt hreachable.sound fun task hmem hjob => ?_
    -- every other call about the job was a request, and has ended
    obtain ⟨j, hj⟩ := List.mem_iff_getElem?.mp hmem
    obtain ⟨call, hcall, horigin⟩ := hrun.call hs hj
    obtain ⟨call', hcall', hsame⟩ := hrun.registers hs hj
    cases hcall.symm.trans hcall'
    have hjob' := horigin _ hjob
    cases htasks call (List.mem_of_getElem? hcall) hjob' with
    | request hp hd =>
      have hbrings := Task.brings?_eq_some.mpr ⟨_, Task.delivery?_eq_some.mpr ⟨hp, hjob'⟩, hd⟩
      obtain ⟨result, hended⟩ := hdone j call hcall (Option.isSome_iff_exists.mpr ⟨_, hbrings⟩)
      cases hj.symm.trans hended
      cases hjob
    | registering | announcing => exact hsame.symm

def failureReport : List UInt8 :=
  1 :: JobId.nil.bytes ++ [3, 1, 0, 1, 1, 120] ++
    Wire.uint32 (Wire.checksum (1 :: JobId.nil.bytes ++ [3, 1, 0, 1, 1, 120]))

theorem decode_failureReport :
    Request.decode [.long] failureReport = .ok (.ofFailure .nil 1 "x") := by
  rw [Request.decode, failureReport, Request.verifiedBody_eq_ok.mpr rfl]
  rfl

theorem peek_failureReport :
    Request.Header.peek failureReport = .ok ⟨.nil, true, true, 1, 0, 1⟩ := by
  rw [Request.Header.peek, failureReport, Request.verifiedBody_eq_ok.mpr rfl]
  rfl

theorem ended_of_result? {task : Task} {result : DeliveryResult} (h : task.result? = some result) :
    task = .ended result := by
  cases task <;> cases h
  rfl

/-- One producer sends a stream of one request, the other one its report. -/
theorem failures_end_job_second :
    let phase : MergePhase := ⟨.nil, [.long], [], 2⟩
    let context := MergeContext.fresh phase ⟨[]⟩
    let start : System :=
      ⟨.start 10 1000 .info .empty,
        [.registering context, .arrived lastRows, .arrived failureReport]⟩
    let s := start.move 0
    let run := s.play [1, 1, 1, 2, 2, 2, 2, 2, 2]
    s.Reachable ∧ (s.manager.table.entry .nil).active = some 0 ∧
      s.manager.contexts[0]? = some context ∧ s.Runs run.1 run.2 ∧
      (run.2.tasks[1]?.bind (·.result?)) = some (.ok .delivered) ∧
      run.2.sentAt 0 = some (.error (.remote "x")) := by
  intro phase context start s run
  have hcontext : MergeContext.create phase ⟨[]⟩ = .ok context :=
    MergeContext.create_eq _ (by decide)
  have hstart : start.Starts := by
    refine ⟨⟨10, 1000, .info, .empty, rfl⟩, ?_⟩
    simp only [start, List.forall_mem_cons]
    exact ⟨.register hcontext, .receive _, .receive _, List.forall_mem_nil _⟩
  have hreachable : s.Reachable := ⟨start, hstart, reaches_move start 0⟩
  have hruns : s.Runs run.1 run.2 := runs_play ..
  have hincoming : s.incoming phase.inputTypes phase.job =
      [⟨.nil, 0, 0, true, .rows (.materialized [])⟩, .ofFailure .nil 1 "x"] := by
    have hrows : (Task.arrived lastRows).brings? [.long] .nil =
        some ⟨.nil, 0, 0, true, .rows (.materialized [])⟩ :=
      Task.brings?_eq_some.mpr ⟨_, by simp [Task.delivery?, peek_lastRows, Except.toOption],
        decode_lastRows⟩
    have hreport : (Task.arrived failureReport).brings? [.long] .nil =
        some (.ofFailure .nil 1 "x") :=
      Task.brings?_eq_some.mpr ⟨_, by simp [Task.delivery?, peek_failureReport, Except.toOption],
        decode_failureReport⟩
    have hnone : (Task.announcing .nil 0 none).brings? [.long] .nil = none := rfl
    change List.filterMap (Task.brings? [.long] .nil)
      [.announcing .nil 0 none, .arrived lastRows, .arrived failureReport] = _
    rw [List.filterMap_cons_none hnone, List.filterMap_cons_some hrows,
      List.filterMap_cons_some hreport, List.filterMap_nil]
  have hhonest : Request.Honest 2 (s.incoming phase.inputTypes phase.job) := by
    rw [hincoming]
    refine ⟨by decide, fun p hp => ?_⟩
    have hcases : p = 0 ∨ p = 1 := by omega
    rcases hcases with rfl | rfl
    · exact .inl ⟨1, by decide, ⟨by decide, by decide⟩, by decide⟩
    · exact .inr ⟨_, _, _, rfl⟩
  have hactive : (s.manager.table.entry .nil).active = some 0 := rfl
  have htasks : ∀ task ∈ s.tasks, task.job? s.manager = some .nil → task.Benign [.long] 0 := by
    change ∀ task ∈ [Task.announcing .nil 0 none, .arrived lastRows, .arrived failureReport], _
    simp only [List.forall_mem_cons]
    have hfree (payload : List UInt8) (other : ContextId)
        (h : (Task.arrived payload).context? = some other) : other = 0 := by cases h
    exact ⟨fun _ => .announcing _ _, fun _ => .request rfl decode_lastRows (hfree _),
      fun _ => .request rfl decode_failureReport (hfree _), List.forall_mem_nil _⟩
  have hfailure : ∃ r ∈ s.incoming phase.inputTypes phase.job, r.isFailure = true :=
    ⟨.ofFailure .nil 1 "x", by simp [hincoming], rfl⟩
  have hfresh : s.manager.contexts[0]? = some (.fresh phase ⟨[]⟩) := rfl
  obtain ⟨-, hsent, hended, -⟩ := failures_end_job hreachable hactive hfresh (by decide) htasks
    hhonest hfailure hruns
  have hfirst : (run.2.tasks[1]?.bind (·.result?)) = some (.ok .delivered) := by decide +kernel
  have hsecond : (run.2.tasks[2]?.bind (·.result?)) = some (.ok .completed) := by decide +kernel
  have hresult {j : Nat} {result : DeliveryResult}
      (h : (run.2.tasks[j]?.bind (·.result?)) = some result) :
      ∃ result, run.2.tasks[j]? = some (.ended result) := by
    obtain ⟨task, htask, hresult⟩ := Option.bind_eq_some_iff.mp h
    exact ⟨result, ended_of_result? hresult ▸ htask⟩
  have hdone : ∀ (j : Nat) (task : Task), s.tasks[j]? = some task →
      (task.brings? [.long] .nil).isSome = true →
      ∃ result, run.2.tasks[j]? = some (.ended result) := by
    rintro (_ | _ | _ | j) task hj hbrings
    · cases hj
      cases hbrings
    · exact hresult hfirst
    · exact hresult hsecond
    · cases hj
  have hsome := hended hdone
  obtain ⟨outcome, houtcome⟩ := Option.isSome_iff_exists.mp hsome
  obtain ⟨⟨r, hr, message, hp, rfl⟩, -⟩ := hsent outcome houtcome
  refine ⟨hreachable, hactive, rfl, hruns, hfirst, houtcome.trans ?_⟩
  rw [hincoming] at hr
  simp only [List.mem_cons, List.not_mem_nil, or_false] at hr
  rcases hr with rfl | rfl <;> cases hp
  rfl

end System

end ShardQuery
