import Mathlib.Logic.Relation
import ShardQuery.Proofs.Manager.Step
import ShardQuery.Proofs.Request.Decode
/-!
# Runs of a manager

All tasks that work with one manager take their turns in any order, and time passes
between the turns. Everything that such a run can reach is `Sound`: no job is active
and ended, or active and awaited by an error, and each task works on a context of its
own job.
-/

namespace ShardQuery

namespace Manager

/-- What the table and the contexts say of each other. -/
structure Sound (manager : Manager) : Prop where
  distinct : manager.table.Distinct
  consistent : ∀ job, (manager.table.entry job).Consistent
  active : ∀ job id, (manager.table.entry job).active = some id → manager.jobAt id = some job

theorem sound_start (waitMillis retentionMillis : Nat) (minimum : Severity) (sink : Sink) :
    (start waitMillis retentionMillis minimum sink).Sound :=
  ⟨⟨List.nodup_nil, List.nodup_nil⟩, fun _ => nofun, fun _ _ => nofun⟩

end Manager

namespace Task

variable {manager manager' : Manager} {task next other : Task} {job : JobId} {id : ContextId}

def Knows (manager : Manager) (task : Task) : Prop :=
  ∀ id, task.context? = some id → ∃ job, manager.jobAt id = some job ∧ task.job? manager = some job

inductive IsCall : Task → Prop where
  | receive (payload : List UInt8) : IsCall (arrived payload)
  | register {phase : MergePhase} {chain : Chain} {context : MergeContext} :
      MergeContext.create phase chain = .ok context → IsCall (registering context)
  | fail (job : JobId) (error : EngineError) (result : DeliveryResult) :
      IsCall (failing job error result)
  | cancel (job : JobId) : IsCall (cancelling job)

theorem IsCall.knows (h : task.IsCall) : task.Knows manager := by
  cases h <;> exact fun _ => nofun

/-- A turn of a task is its next step. Besides, a wait may end at its deadline although a
registration has come. -/
inductive Turn (manager : Manager) : Task → Task → Manager → Prop where
  | step {task next : Task} {manager' : Manager} : task.step manager = (next, manager') →
      Turn manager task next manager'
  | lapse (payload : List UInt8) (job : JobId) (deadline seen : Nat) : deadline ≤ manager.now →
      Turn manager (waiting payload job deadline seen) (expired payload job) manager

theorem Turn.effect (h : task.Turn manager next manager') : Effect manager task manager' := by
  cases h with
  | step h =>
    have he := effect_step task manager
    rwa [h] at he
  | lapse => exact effect_note _ ⟨manager.telemetry, rfl⟩

theorem Turn.leads (h : task.Turn manager next manager') : Leads manager task next := by
  cases h with
  | step h =>
    have hl := leads_step task manager
    rwa [h] at hl
  | lapse payload job => exact .expires payload job rfl

theorem Effect.sound (h : Effect manager task manager') (hs : manager.Sound) : manager'.Sound where
  distinct := h.distinct hs.distinct
  consistent job := (h.entry hs.distinct job).consistent (hs.consistent job)
  active job id ha := by
    rcases h.active hs.distinct ha with hold | ⟨_, -, -, hnew⟩
    · exact h.jobAt (hs.active job id hold)
    · exact hnew

theorem Effect.job? (h : Effect manager task manager') (hjob : other.job? manager = some job) :
    other.job? manager' = some job := by
  cases other with
  | gathering | merging | retiring | stopping | publishing => exact h.jobAt hjob
  | _ => exact hjob

theorem Effect.knows (h : Effect manager task manager') (hk : other.Knows manager) :
    other.Knows manager' := by
  intro id hid
  obtain ⟨job, hat, hjob⟩ := hk id hid
  exact ⟨job, h.jobAt hat, h.job? hjob⟩

theorem Effect.job?_of_knows (h : Effect manager task manager') (hk : other.Knows manager)
    (hjob : other.job? manager' = some job) : other.job? manager = some job := by
  cases other with
  | gathering id | merging id | retiring id | stopping id | publishing id =>
    obtain ⟨own, hat, hown⟩ := hk id rfl
    cases (h.jobAt hat).symm.trans hjob
    exact hown
  | _ => exact hjob

/-- A task stays with its job, whose contexts are the only ones that it gets to know. -/
theorem Turn.keeps (h : task.Turn manager next manager') (hs : manager.Sound)
    (hk : task.Knows manager) :
    next.Knows manager' ∧
      ∀ job, next.job? manager' = some job → task.job? manager = some job := by
  have he := h.effect
  cases h.leads with
  | ends | answers => exact ⟨fun _ => nofun, fun _ => nofun⟩
  | looks _ _ _ _ _ hjob | waits _ _ _ _ hjob | expires _ _ hjob =>
    refine ⟨fun _ => nofun, fun job hj => ?_⟩
    cases hj
    exact hjob
  | finds payload job id hjob ha =>
    refine ⟨fun _ hid => ?_, fun _ hj => ?_⟩
    · cases hid
      exact ⟨job, he.jobAt (hs.active job id ha), rfl⟩
    · cases hj
      exact hjob
  | gathers id hc | merges id _ hc | retires id _ hc | publishes id _ _ hc =>
    obtain ⟨job, hat, hjob⟩ := hk id hc
    refine ⟨fun _ hid => ?_, fun _ hj => ?_⟩
    · cases hid
      exact ⟨job, he.jobAt hat, he.jobAt hat⟩
    · cases (he.jobAt hat).symm.trans hj
      exact hjob
  | fails payload job id error result htask =>
    refine ⟨fun _ => nofun, fun _ hj => ?_⟩
    cases hj
    rw [htask]
    rfl
  | stops job id error result hjob ha =>
    have hat := he.jobAt (hs.active job id ha)
    refine ⟨fun _ hid => ?_, fun _ hj => ?_⟩
    · cases hid
      exact ⟨job, hat, hat⟩
    · cases hat.symm.trans hj
      exact hjob
  | announces context failure htask hr =>
    subst htask
    cases h with
    | step h =>
      obtain ⟨-, rfl⟩ := Prod.mk.inj ((registering_entered failure hr).symm.trans h)
      refine ⟨fun _ hid => ?_, fun _ hj => ?_⟩
      · cases hid
        exact ⟨context.job, by simp [Manager.jobAt], rfl⟩
      · cases hj
        rfl

end Task

structure System where
  manager : Manager
  tasks : List Task

namespace System

inductive Acts (s : System) (i : Nat) : System → Prop where
  | turn {task next : Task} {manager : Manager} : s.tasks[i]? = some task →
      task.Turn s.manager next manager → Acts s i ⟨manager, s.tasks.set i next⟩

inductive Step (s : System) : System → Prop where
  | act {s' : System} (i : Nat) : s.Acts i s' → Step s s'
  | tick (now : Nat) : s.manager.now ≤ now → Step s ⟨{ s.manager with now }, s.tasks⟩

abbrev Reaches : System → System → Prop := Relation.ReflTransGen Step

structure Starts (s : System) : Prop where
  manager : ∃ waitMillis retentionMillis minimum sink,
    s.manager = .start waitMillis retentionMillis minimum sink
  calls : ∀ task ∈ s.tasks, task.IsCall

def Reachable (s : System) : Prop := ∃ start : System, start.Starts ∧ start.Reaches s

structure Sound (s : System) : Prop where
  manager : s.manager.Sound
  tasks : ∀ task ∈ s.tasks, task.Knows s.manager

variable {s s' : System} {i j : Nat} {task next : Task}

theorem Acts.exists_turn (h : s.Acts i s') :
    ∃ task next, s.tasks[i]? = some task ∧ task.Turn s.manager next s'.manager ∧
      s'.tasks[i]? = some next := by
  obtain ⟨hi, hturn⟩ := h
  exact ⟨_, _, hi, hturn, List.getElem?_set_self (List.getElem?_eq_some_iff.mp hi).1⟩

theorem Acts.own (h : s.Acts i s') (hi : s.tasks[i]? = some task) :
    ∃ next, task.Turn s.manager next s'.manager ∧ s'.tasks[i]? = some next := by
  obtain ⟨found, next, hfound, hturn, hnext⟩ := h.exists_turn
  cases hfound.symm.trans hi
  exact ⟨next, hturn, hnext⟩

theorem Acts.other (h : s.Acts i s') (hj : j ≠ i) : s'.tasks[j]? = s.tasks[j]? := by
  obtain ⟨-, -⟩ := h
  exact List.getElem?_set_ne hj.symm

theorem Starts.sound (h : s.Starts) : s.Sound where
  manager := by
    obtain ⟨waitMillis, retentionMillis, minimum, sink, hm⟩ := h.manager
    exact hm ▸ Manager.sound_start waitMillis retentionMillis minimum sink
  tasks task hm := (h.calls task hm).knows

theorem Acts.sound (h : s.Acts i s') (hs : s.Sound) : s'.Sound := by
  obtain ⟨hi, hturn⟩ := h
  refine ⟨hturn.effect.sound hs.manager, fun other hm => ?_⟩
  rcases List.mem_or_eq_of_mem_set hm with hm | rfl
  · exact hturn.effect.knows (hs.tasks other hm)
  · exact (hturn.keeps hs.manager (hs.tasks _ (List.mem_of_getElem? hi))).1

theorem Step.sound (h : s.Step s') (hs : s.Sound) : s'.Sound := by
  cases h with
  | act i hact => exact hact.sound hs
  | tick now hle =>
    exact ⟨⟨hs.manager.distinct, hs.manager.consistent, hs.manager.active⟩, hs.tasks⟩

theorem Reaches.sound (h : s.Reaches s') (hs : s.Sound) : s'.Sound := by
  induction h with
  | refl => exact hs
  | tail _ hstep ih => exact hstep.sound ih

theorem Reachable.sound (h : s.Reachable) : s.Sound := by
  obtain ⟨start, hstart, hrun⟩ := h
  exact hrun.sound hstart.sound

theorem Reaches.call (h : s.Reaches s') (hs : s.Sound) (hi : s'.tasks[i]? = some next) :
    ∃ call, s.tasks[i]? = some call ∧
      ∀ job, next.job? s'.manager = some job → call.job? s.manager = some job := by
  induction h generalizing next with
  | refl => exact ⟨next, hi, fun _ => id⟩
  | @tail a b hrun hstep ih =>
    have ha := Reaches.sound hrun hs
    cases hstep with
    | tick => exact ih hi
    | act j hact =>
      by_cases hj : i = j
      · subst hj
        obtain ⟨task, after, htask, hturn, hafter⟩ := hact.exists_turn
        cases hafter.symm.trans hi
        obtain ⟨call, hcall, hjob⟩ := ih htask
        have hk := hturn.keeps ha.manager (ha.tasks _ (List.mem_of_getElem? htask))
        exact ⟨call, hcall, fun job h => hjob job (hk.2 job h)⟩
      · rw [hact.other hj] at hi
        obtain ⟨call, hcall, hjob⟩ := ih hi
        obtain ⟨_, _, -, hturn, -⟩ := hact.exists_turn
        have hk := ha.tasks _ (List.mem_of_getElem? hi)
        exact ⟨call, hcall, fun job h => hjob job (hturn.effect.job?_of_knows hk h)⟩

-- ---------------------------------------------------------------------------
-- Runs on given systems
-- ---------------------------------------------------------------------------

def move (i : Nat) (s : System) : System :=
  match s.tasks[i]? with
  | some task => ⟨(task.step s.manager).2, s.tasks.set i (task.step s.manager).1⟩
  | none => s

def wait (millis : Nat) (s : System) : System :=
  { s with manager := { s.manager with now := s.manager.now + millis } }

theorem acts_move (h : s.tasks[i]? = some task) : s.Acts i (s.move i) := by
  simp only [move, h]
  exact .turn h (.step rfl)

theorem reaches_move (s : System) (i : Nat) : s.Reaches (s.move i) := by
  cases h : s.tasks[i]? with
  | none =>
    simp only [move, h]
    exact .refl
  | some task => exact .single (.act i (acts_move h))

theorem reaches_wait (s : System) (millis : Nat) : s.Reaches (s.wait millis) :=
  .single (.tick _ (Nat.le_add_right ..))

def probe : List UInt8 :=
  1 :: JobId.nil.bytes ++ [0, 0, 0, 0] ++
    Wire.uint32 (Wire.checksum (1 :: JobId.nil.bytes ++ [0, 0, 0, 0]))

theorem peek_probe : Request.Header.peek probe = .ok ⟨.nil, false, false, 0, 0, 0⟩ := by
  rw [Request.Header.peek, probe, Request.verifiedBody_eq_ok.mpr rfl]
  rfl

theorem step_probe (manager : Manager) : Task.step (.arrived probe) manager =
    (.looking probe .nil (manager.now + manager.waitMillis) manager.generation false,
      manager.increment .requestsReceived) := by
  simp only [Task.step, Task.arrive, peek_probe]
  rfl

-- ---------------------------------------------------------------------------
-- Time
-- ---------------------------------------------------------------------------

theorem Step.clock (h : s.Step s') : s.manager.now ≤ s'.manager.now ∧
    s'.manager.waitMillis = s.manager.waitMillis ∧
    s'.manager.retentionMillis = s.manager.retentionMillis := by
  cases h with
  | act i hact =>
    obtain ⟨-, hturn⟩ := hact
    exact ⟨Nat.le_of_eq hturn.effect.clock.1.symm, hturn.effect.clock.2⟩
  | tick now hle => exact ⟨hle, rfl, rfl⟩

theorem Reaches.clock (h : s.Reaches s') : s.manager.now ≤ s'.manager.now ∧
    s'.manager.waitMillis = s.manager.waitMillis ∧
    s'.manager.retentionMillis = s.manager.retentionMillis := by
  induction h with
  | refl => exact ⟨Nat.le_refl _, rfl, rfl⟩
  | tail _ hstep ih =>
    obtain ⟨hle, hwait, hretention⟩ := hstep.clock
    exact ⟨Nat.le_trans ih.1 hle, hwait.trans ih.2.1, hretention.trans ih.2.2⟩

/-- What the operations on the table preserve for the retention time lasts so long. -/
theorem Reaches.entry {P : JobTable.Entry → Prop} {job : JobId} {time : Nat} (h : s.Reaches s')
    (hs : s.Sound) (hp : P (s.manager.table.entry job)) (htime : time ≤ s.manager.now)
    (hnow : s'.manager.now < time + s.manager.retentionMillis)
    (hnext : ∀ {now entry next}, JobTable.Entry.Next now s.manager.retentionMillis entry next →
      P entry → time ≤ now → now < time + s.manager.retentionMillis → P next) :
    P (s'.manager.table.entry job) := by
  induction h with
  | refl => exact hp
  | @tail a b hrun hstep ih =>
    have hle := hstep.clock.1
    have ha := ih (by omega)
    obtain ⟨hle', -, hretention⟩ := Reaches.clock hrun
    cases hstep with
    | act i hact =>
      obtain ⟨-, hturn⟩ := hact
      have hentry := hturn.effect.entry (Reaches.sound hrun hs).manager.distinct job
      rw [hretention] at hentry
      exact hnext hentry ha (by omega) (by omega)
    | tick => exact ha

end System

end ShardQuery
