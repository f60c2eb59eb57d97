import ShardQuery.Proofs.Manager.Retention
/-!
# A registration among requests

Requests for a job may give up on it while the job is being registered. Giving up
leaves an error in the table in the same step that finds the job unknown, so that
either the registration finds the error and the job fails, or the request finds the
job.
-/

namespace ShardQuery

namespace Task

variable {manager manager' : Manager} {task next : Task} {job : JobId} {id : ContextId}

def orders? : Task → Option JobId
  | registering context => some context.job
  | failing job _ _ | cancelling job => some job
  | _ => none

theorem Leads.orders? (h : Leads manager task next) (hn : next.orders? = some job) :
    ∃ payload id, task = handing payload job id := by
  cases h with
  | fails payload _ id _ _ htask =>
    cases hn
    exact ⟨payload, id, htask⟩
  | _ => cases hn

/-- A context whose job is not active stays with those who know it. -/
theorem Leads.hidden (h : Leads manager task next) (hs : manager.Sound)
    (hat : manager.jobAt id = some job) (ha : (manager.table.entry job).active = none)
    (hid : task.context? ≠ some id) : next.context? ≠ some id := by
  intro hnext
  rcases h.context? hnext with hown | ⟨other, -, hother⟩ | hnew
  · exact hid hown
  · -- the context of an active job is one of that job
    cases (hs.active other id hother).symm.trans hat
    simp [ha] at hother
  · subst hnew
    simp [Manager.jobAt] at hat

theorem Leads.ne_registering (h : Leads manager task next) (context : MergeContext) :
    next ≠ registering context := by
  cases h <;> exact nofun

end Task

-- ---------------------------------------------------------------------------
-- Before the registration
-- ---------------------------------------------------------------------------

structure JobTable.Entry.Awaited (job : JobId) (waitMillis : Nat) (entry : JobTable.Entry) :
    Prop where
  active : entry.active = none
  finished : entry.finished = none
  pending : ∀ error since, entry.pending = some (error, since) →
    error = .contextTimeout job waitMillis

theorem JobTable.Entry.Awaited.aged {job : JobId} {waitMillis : Nat} {entry : JobTable.Entry}
    (h : entry.Awaited job waitMillis) (now retention : Nat) :
    (entry.aged now retention).Awaited job waitMillis where
  active := h.active
  finished := by simp [Entry.aged, h.finished]
  pending error since hp := h.pending error since (Option.filter_eq_some_iff.mp hp).1

structure Manager.Unclaimed (job : JobId) (manager : Manager) : Prop where
  entry : (manager.table.entry job).Awaited job manager.waitMillis
  contexts : ∀ id, manager.jobAt id ≠ some job

namespace Task

variable {manager manager' : Manager} {task next : Task} {job own : JobId} {id : ContextId}

theorem Effect.jobAt_origin (h : Effect manager task manager')
    (hjob : manager'.jobAt id = some job) :
    manager.jobAt id = some job ∨ task.orders? = some job := by
  cases h with
  | tells | retires | givesUp | refuses => exact .inl hjob
  | works _ place f _ _ _ _ hf =>
    left
    by_cases hplace : place = id
    · subst hplace
      cases hc : manager.contexts[place]? with
      | none => simp [Manager.jobAt, hc] at hjob
      | some context =>
        have hkept : (f context).job = job := by simpa [Manager.jobAt, hc] using hjob
        rw [Manager.jobAt, hc, Option.map_some, ← hf context hc, hkept]
    · simpa [Manager.jobAt, hplace] using hjob
  | enters context =>
    obtain ⟨found, hfound, rfl⟩ := Option.map_eq_some_iff.mp hjob
    rw [List.getElem?_append] at hfound
    split at hfound
    · exact .inl (Option.map_eq_some_iff.mpr ⟨found, hfound, rfl⟩)
    · rw [List.mem_singleton.mp (List.mem_of_getElem? hfound)]
      exact .inr rfl

theorem retires?_origin (h : task.retires? manager = some own) :
    task.orders? = some own ∨ ∃ id, manager.jobAt id = some own := by
  cases task with
  | failing | cancelling => exact .inl h
  | retiring id => exact .inr ⟨id, h⟩
  | registering context =>
    have hjob := job?_of_retires? h
    exact .inl hjob
  | _ => cases h

theorem Effect.unclaimed (h : Effect manager task manager') (hd : manager.table.Distinct)
    (hu : manager.Unclaimed job) (ho : task.orders? ≠ some job) : manager'.Unclaimed job := by
  refine ⟨?_, fun id hjob => (h.jobAt_origin hjob).elim (hu.contexts id) ho⟩
  cases h with
  | tells | works => exact hu.entry
  | retires _ own _ hown =>
    have hne : job ≠ own := by
      rintro rfl
      exact (retires?_origin hown).elim ho fun ⟨id, hat⟩ => hu.contexts id hat
    rw [JobTable.entry_retire hd, if_neg hne]
    exact hu.entry.aged _ _
  | givesUp payload own =>
    by_cases hjob : job = own
    · subst hjob
      have hunknown := JobTable.status_eq_unknown.mpr ⟨hu.entry.active, hu.entry.finished⟩
      rw [JobTable.entry_giveUp hd hunknown, if_pos rfl]
      refine ⟨rfl, rfl, fun error since hp => ?_⟩
      cases hp
      rfl
    · rcases JobTable.entry_giveUp_ne hd (.contextTimeout own manager.waitMillis) hjob with
        hsame | haged
      · rw [hsame]
        exact hu.entry
      · rw [haged]
        exact hu.entry.aged _ _
  | refuses context | enters context =>
    have hne : job ≠ context.job := by
      rintro rfl
      exact ho rfl
    rw [JobTable.entry_register_ne hd _ hne]
    exact hu.entry.aged _ _

end Task

namespace System

variable {start s s' : System} {i j r : Nat} {job : JobId} {context : MergeContext}
  {id : ContextId}

/-- The call at `r` registers the context; of all other calls only requests may be about its job. -/
structure Race (r : Nat) (context : MergeContext) (s : System) : Prop where
  starts : s.Starts
  registers : s.tasks[r]? = some (.registering context)
  others : ∀ i task, s.tasks[i]? = some task → i ≠ r → task.orders? ≠ some context.job

structure Undecided (r : Nat) (context : MergeContext) (s : System) : Prop where
  unclaimed : s.manager.Unclaimed context.job
  others : ∀ i task, s.tasks[i]? = some task → i ≠ r → task.orders? ≠ some context.job

theorem Race.undecided (h : start.Race r context) : start.Undecided r context := by
  obtain ⟨waitMillis, retentionMillis, minimum, sink, hm⟩ := h.starts.manager
  refine ⟨?_, h.others⟩
  rw [hm]
  exact ⟨⟨rfl, rfl, fun _ _ => nofun⟩, fun _ => nofun⟩

theorem Acts.undecided (hact : s.Acts i s') (hs : s.Sound) (hi : i ≠ r)
    (hu : s.Undecided r context) : s'.Undecided r context := by
  obtain ⟨task, next, htask, hturn, hnext⟩ := hact.exists_turn
  refine ⟨hturn.effect.unclaimed hs.manager.distinct hu.unclaimed (hu.others i task htask hi), ?_⟩
  intro j other hother hj
  by_cases hij : j = i
  · subst hij
    cases hnext.symm.trans hother
    intro horders
    obtain ⟨payload, id, rfl⟩ := hturn.leads.orders? horders
    -- a request of the job was handed to a context, but there is none of the job
    obtain ⟨own, hat, hown⟩ := hs.tasks _ (List.mem_of_getElem? htask) id rfl
    cases hown
    exact hu.unclaimed.contexts id hat
  · rw [hact.other hij] at hother
    exact hu.others j other hother hj

theorem Acts.registering (hact : s.Acts i s')
    (hj : s'.tasks[j]? = some (.registering context)) :
    j ≠ i ∧ s.tasks[j]? = some (.registering context) := by
  have hji : j ≠ i := by
    rintro rfl
    obtain ⟨task, next, -, hturn, hnext⟩ := hact.exists_turn
    cases hnext.symm.trans hj
    exact hturn.leads.ne_registering context rfl
  exact ⟨hji, hact.other hji ▸ hj⟩

theorem Reaches.undecided (h : start.Reaches s) (hrace : start.Race r context)
    (hr : s.tasks[r]? = some (.registering context)) : s.Undecided r context := by
  induction h with
  | refl => exact hrace.undecided
  | @tail a b hrun hstep ih =>
    have ha := Reaches.sound hrun hrace.starts.sound
    cases hstep with
    | tick => exact ⟨⟨(ih hr).unclaimed.entry, (ih hr).unclaimed.contexts⟩, (ih hr).others⟩
    | act i hact =>
      obtain ⟨hi, hr⟩ := hact.registering hr
      exact hact.undecided ha hi.symm (ih hr)

-- ---------------------------------------------------------------------------
-- A request gave up before the registration
-- ---------------------------------------------------------------------------

structure Failed (r : Nat) (context : MergeContext) (id : ContextId) (error : EngineError)
    (s : System) : Prop where
  inactive : (s.manager.table.entry context.job).active = none
  others : ∀ i other, s.tasks[i]? = some (.registering other) → i ≠ r →
    other.job ≠ context.job
  hidden : ∀ i task, s.tasks[i]? = some task → i ≠ r → task.context? ≠ some id
  fails : s.tasks[r]? = some (.announcing context.job id (some error)) ∧
      s.manager.contexts[id]? = some context ∨
    s.tasks[r]? = some (.registered (.ok id)) ∧
      s.manager.contexts[id]? = some (context.fail error)

theorem Failed.own {error : EngineError} (h : s.Failed r context id error) (hact : s.Acts r s') :
    (s'.manager.table.entry context.job).active = none ∧
      s'.tasks[r]? = some (.registered (.ok id)) ∧
      s'.manager.contexts[id]? = some (context.fail error) := by
  rcases h.fails with ⟨hr, hc⟩ | ⟨hr, hc⟩
  · obtain ⟨next, hturn, hnext⟩ := hact.own hr
    cases hturn with
    | step hstep =>
      obtain ⟨telemetry, hfail⟩ := Task.announcing_failure context.job id error s.manager
      obtain ⟨rfl, hm⟩ := Prod.mk.inj (hfail.symm.trans hstep)
      exact ⟨hm ▸ h.inactive, hnext, by simp [← hm, hc]⟩
  · obtain ⟨next, hturn, hnext⟩ := hact.own hr
    cases hturn with
    | step hstep =>
      obtain ⟨rfl, hm⟩ := Prod.mk.inj hstep
      exact ⟨hm ▸ h.inactive, hnext, hm ▸ hc⟩

theorem Failed.acts {error : EngineError} (h : s.Failed r context id error) (hs : s.Sound)
    (hact : s.Acts i s') : s'.Failed r context id error := by
  obtain ⟨task, next, htask, hturn, hnext⟩ := hact.exists_turn
  have hat : s.manager.jobAt id = some context.job := by
    rcases h.fails with ⟨-, hc⟩ | ⟨-, hc⟩
    · simp [Manager.jobAt, hc]
    · simp [Manager.jobAt, hc, MergeContext.job_fail]
  have hothers : ∀ j other, s'.tasks[j]? = some (.registering other) → j ≠ r →
      other.job ≠ context.job := by
    intro j other hj hjr
    exact h.others j other (hact.registering hj).2 hjr
  by_cases hi : i = r
  · subst hi
    obtain ⟨hinactive, hr, hc⟩ := h.own hact
    refine ⟨hinactive, hothers, ?_, .inr ⟨hr, hc⟩⟩
    intro j other hj hjr
    rw [hact.other hjr] at hj
    exact h.hidden j other hj hjr
  · have hid := h.hidden i task htask hi
    refine ⟨hturn.effect.inactive hs.manager.distinct h.inactive ?_, hothers, ?_, ?_⟩
    · rintro other rfl
      exact h.others i other htask hi
    · intro j other hj hjr
      by_cases hij : j = i
      · subst hij
        cases hnext.symm.trans hj
        exact hturn.leads.hidden hs.manager hat h.inactive hid
      · rw [hact.other hij] at hj
        exact h.hidden j other hj hjr
    · rw [hact.other (Ne.symm hi)]
      rcases h.fails with ⟨hr, hc⟩ | ⟨hr, hc⟩
      · exact .inl ⟨hr, hturn.effect.contexts hid hc⟩
      · exact .inr ⟨hr, hturn.effect.contexts hid hc⟩

theorem Failed.reaches {error : EngineError} (h : s.Failed r context id error) (hs : s.Sound)
    (hrun : s.Reaches s') : s'.Failed r context id error := by
  induction hrun with
  | refl => exact h
  | tail hrun hstep ih =>
    cases hstep with
    | act i hact => exact ih.acts (Reaches.sound hrun hs) hact
    | tick => exact ⟨ih.inactive, ih.others, ih.hidden, ih.fails⟩

theorem Undecided.enters (hu : s.Undecided r context) (hs : s.Sound)
    (hr : s.tasks[r]? = some (.registering context)) (hact : s.Acts r s') :
    s'.manager.contexts = s.manager.contexts ++ [context] ∧
    ((((s.manager.table.entry context.job).aged s.manager.now
          s.manager.retentionMillis).pending = none ∧
        s'.manager.table.entry context.job = ⟨some s.manager.contexts.length, none, none⟩) ∨
      ∃ error since,
        ((s.manager.table.entry context.job).aged s.manager.now
          s.manager.retentionMillis).pending = some (error, since) ∧
        s'.tasks[r]? = some (.announcing context.job s.manager.contexts.length (some error)) ∧
        s'.manager.table.entry context.job = ⟨none, some s.manager.now, none⟩) := by
  obtain ⟨next, hturn, hnext⟩ := hact.own hr
  have haged := hu.unclaimed.entry.aged s.manager.now s.manager.retentionMillis
  cases hturn with
  | step hstep =>
    cases hp : ((s.manager.table.entry context.job).aged s.manager.now
        s.manager.retentionMillis).pending with
    | none =>
      obtain ⟨hreg, hentry⟩ := JobTable.register_active hs.manager.distinct
        s.manager.contexts.length (JobTable.Entry.ext haged.active haged.finished hp)
      obtain ⟨rfl, hm⟩ :=
        Prod.mk.inj ((Task.registering_entered none hreg).symm.trans hstep)
      rw [← hm]
      exact ⟨rfl, .inl ⟨rfl, by rw [hentry, if_pos rfl]⟩⟩
    | some failure =>
      obtain ⟨error, since⟩ := failure
      obtain ⟨hreg, hentry⟩ := JobTable.register_failed hs.manager.distinct
        s.manager.contexts.length haged.active haged.finished hp
      obtain ⟨rfl, hm⟩ :=
        Prod.mk.inj ((Task.registering_entered (some error) hreg).symm.trans hstep)
      rw [← hm]
      exact ⟨rfl, .inr ⟨error, since, rfl, hnext, by rw [hentry, if_pos rfl]⟩⟩

theorem Undecided.failed {error : EngineError} (hu : s.Undecided r context) (hs : s.Sound)
    (hact : s.Acts r s') (hcontexts : s'.manager.contexts = s.manager.contexts ++ [context])
    (hr : s'.tasks[r]? = some (.announcing context.job s.manager.contexts.length (some error)))
    (hentry : (s'.manager.table.entry context.job).active = none) :
    s'.Failed r context s.manager.contexts.length error := by
  refine ⟨hentry, ?_, ?_, .inl ⟨hr, by simp [hcontexts]⟩⟩
  · intro j other hj hjr hjob
    rw [hact.other hjr] at hj
    exact hu.others j _ hj hjr (congrArg some hjob)
  · intro j task hj hjr hid
    rw [hact.other hjr] at hj
    obtain ⟨job, hat, -⟩ := hs.tasks task (List.mem_of_getElem? hj) _ hid
    simp [Manager.jobAt] at hat

/-- A request that gave up before the registration, less than the retention time ago, has left its
error to the registration. -/
theorem Race.gaveUp {t t' : System} {payload : List UInt8} (h : start.Race r context)
    (hrun : start.Reaches s) (hi : s.tasks[i]? = some (.expired payload context.job))
    (hact : s.Acts i s')
    (hgave : s'.tasks[i]? =
      some (.ended (.error (.contextTimeout context.job start.manager.waitMillis))))
    (hrun' : s'.Reaches t) (hr : t.tasks[r]? = some (.registering context))
    (hnow : t.manager.now < s.manager.now + start.manager.retentionMillis) (hreg : t.Acts r t') :
    (t'.manager.table.entry context.job).finished = some t.manager.now ∧
      t'.Failed r context t.manager.contexts.length
        (.contextTimeout context.job start.manager.waitMillis) := by
  have hs := hrun.sound h.starts.sound
  have hs' := hact.sound hs
  have hrunt : start.Reaches t := hrun.trans (.head (.act i hact) hrun')
  have ht := hrunt.sound h.starts.sound
  obtain ⟨-, hwait, hretention⟩ := hrun.clock
  obtain ⟨hlet, hwaitt, hretentiont⟩ := hrunt.clock
  obtain ⟨next, hturn, hnext⟩ := hact.own hi
  obtain ⟨hnow', -, hretention'⟩ := hturn.effect.clock
  obtain ⟨hle, -, -⟩ := hrun'.clock
  -- the error is in the table, and stays there or has ended the job
  have hpending : s'.manager.table.entry context.job =
      ⟨none, none, some (.contextTimeout context.job s.manager.waitMillis, s.manager.now)⟩ := by
    rcases hturn.of_expired hs.manager.distinct with ⟨id, -, rfl⟩ | ⟨-, rfl⟩ | ⟨-, -, hentry⟩
    · cases hnext.symm.trans hgave
    · cases hnext.symm.trans hgave
    · exact hentry
  have hdoomed : (t.manager.table.entry context.job).Doomed s.manager.now :=
    hrun'.entry hs' (.inr ⟨_, _, Nat.le_refl _, by rw [hpending]⟩) (Nat.le_of_eq hnow'.symm)
      (by omega) fun hstep hd hle hlt => hstep.doomed hd hle hlt
  have hu := hrunt.undecided h hr
  obtain ⟨error, since, hsince, hp⟩ : ∃ error since, s.manager.now ≤ since ∧
      (t.manager.table.entry context.job).pending = some (error, since) := by
    rcases hdoomed with ⟨since, -, hf⟩ | hp
    · simp [hu.unclaimed.entry.finished] at hf
    · exact hp
  obtain rfl := hu.unclaimed.entry.pending error since hp
  have haged : ((t.manager.table.entry context.job).aged t.manager.now
      t.manager.retentionMillis).pending =
        some (.contextTimeout context.job start.manager.waitMillis, since) :=
    JobTable.Entry.aged_pending (hwaitt ▸ hp) hsince (by omega) (by omega)
  obtain ⟨hcontexts, ⟨hnone, -⟩ | ⟨error, since', hp', hr', hentry⟩⟩ := hu.enters ht hr hreg
  · cases haged.symm.trans hnone
  · cases haged.symm.trans hp'
    exact ⟨by rw [hentry], hu.failed ht hreg hcontexts hr' (by rw [hentry])⟩

-- ---------------------------------------------------------------------------
-- A request looks for the last time after the registration
-- ---------------------------------------------------------------------------

/-- For the retention time, the registered context can be found, or the end of its job. -/
theorem Race.registered {t t' : System} {payload : List UInt8} (h : start.Race r context)
    (hrun : start.Reaches t) (hr : t.tasks[r]? = some (.registering context))
    (hreg : t.Acts r t') (hrun' : t'.Reaches s)
    (hnow : s.manager.now < t.manager.now + start.manager.retentionMillis)
    (hi : s.tasks[i]? = some (.expired payload context.job)) (hact : s.Acts i s') :
    s'.tasks[i]? = some (.handing payload context.job t.manager.contexts.length) ∨
      s.manager.table.status context.job = .finished ∧
        s'.tasks[i]? = some (.ended (.ok .discarded)) := by
  have ht := hrun.sound h.starts.sound
  have ht' := hreg.sound ht
  have hs := hrun'.sound ht'
  obtain ⟨-, -, hretention⟩ := hrun.clock
  obtain ⟨_, _, -, hregturn, -⟩ := hreg.exists_turn
  obtain ⟨hclock, -, hretention'⟩ := hregturn.effect.clock
  have hentered : (t'.manager.table.entry context.job).Registered t.manager.contexts.length
      t.manager.now := by
    obtain ⟨-, ⟨-, hentry⟩ | ⟨error, since, -, -, hentry⟩⟩ :=
      (hrun.undecided h hr).enters ht hr hreg
    · exact .inl (by rw [hentry])
    · exact .inr ⟨_, Nat.le_refl _, by rw [hentry]⟩
  have hknown := hrun'.entry ht' hentered (Nat.le_of_eq hclock.symm) (by omega)
    fun hstep hr hle hlt => hstep.registered hr hle hlt
  obtain ⟨next, hturn, hnext⟩ := hact.own hi
  have hstatus : s.manager.table.status context.job = .active t.manager.contexts.length ∨
      s.manager.table.status context.job = .finished :=
    hknown.imp JobTable.status_eq_active.mpr fun ⟨_, _, hf⟩ => hs.status_finished (by simp [hf])
  rcases hturn.of_expired hs.manager.distinct with ⟨id, hid, rfl⟩ | ⟨hf, rfl⟩ | ⟨hunknown, -, -⟩
  · obtain rfl : id = t.manager.contexts.length := by simpa [hid] using hstatus
    exact .inl hnext
  · exact .inr ⟨hf, hnext⟩
  · simp [hunknown] at hstatus

theorem Race.outcome_fail (h : start.Race r context) (error : EngineError) :
    (context.fail error).outcome = some (.error error) := by
  cases h.starts.calls _ (List.mem_of_getElem? h.registers) with
  | register hcreate =>
    rw [MergeContext.eq_fresh hcreate]
    rfl

/-- One call registers a job, and all other calls about that job are requests, in whatever order
they are served.

If a request gave up on the job less than the retention time before the registration, the
registration ends the job: it is never active, and its context fails with the error of the request.
A request that looks for the last time less than the retention time after the registration is
handed to the registered context, or is discarded because the job has ended; it never comes back
with the error of giving up. -/
theorem registration_never_lost (h : start.Race r context) :
    (∀ i payload s s' t t', start.Reaches s →
      s.tasks[i]? = some (.expired payload context.job) → s.Acts i s' →
      s'.tasks[i]? =
        some (.ended (.error (.contextTimeout context.job start.manager.waitMillis))) →
      s'.Reaches t → t.tasks[r]? = some (.registering context) →
      t.manager.now < s.manager.now + start.manager.retentionMillis → t.Acts r t' →
      (t'.manager.table.entry context.job).finished = some t.manager.now ∧
      ∃ error failed, error = .contextTimeout context.job start.manager.waitMillis ∧
        failed = context.fail error ∧ failed.outcome = some (.error error) ∧
        ∀ later, t'.Reaches later →
          (later.manager.table.entry context.job).active = none ∧
          (later.tasks[r]? =
              some (.announcing context.job t.manager.contexts.length (some error)) ∨
            later.tasks[r]? = some (.registered (.ok t.manager.contexts.length)) ∧
              later.manager.contexts[t.manager.contexts.length]? = some failed)) ∧
    ∀ i payload t t' s s', start.Reaches t → t.tasks[r]? = some (.registering context) →
      t.Acts r t' → t'.Reaches s →
      s.manager.now < t.manager.now + start.manager.retentionMillis →
      s.tasks[i]? = some (.expired payload context.job) → s.Acts i s' →
      t'.manager.contexts[t.manager.contexts.length]? = some context ∧
      (s'.tasks[i]? = some (.handing payload context.job t.manager.contexts.length) ∨
        s.manager.table.status context.job = .finished ∧
          s'.tasks[i]? = some (.ended (.ok .discarded))) ∧
      ∀ later result, s'.Reaches later → later.tasks[i]? = some (.ended result) →
        Task.IsTimely result := by
  constructor
  · intro i payload s s' t t' hrun hi hact hgave hrun' hr hnow hreg
    obtain ⟨hfinished, hfailed⟩ := h.gaveUp hrun hi hact hgave hrun' hr hnow hreg
    have ht' : t'.Sound :=
      hreg.sound (hrun'.sound (hact.sound (hrun.sound h.starts.sound)))
    refine ⟨hfinished, _, _, rfl, rfl, h.outcome_fail _, fun later hlater => ?_⟩
    have hlast := hfailed.reaches ht' hlater
    exact ⟨hlast.inactive, hlast.fails.imp And.left fun h => h⟩
  · intro i payload t t' s s' hrun hr hreg hrun' hnow hi hact
    have ht := hrun.sound h.starts.sound
    obtain ⟨hcontexts, -⟩ := (hrun.undecided h hr).enters ht hr hreg
    have hlooked := h.registered hrun hr hreg hrun' hnow hi hact
    refine ⟨by simp [hcontexts], hlooked, fun later result hlater hresult => ?_⟩
    obtain ⟨task, htask, hfound⟩ : ∃ task, later.tasks[i]? = some task ∧ task.Found := by
      rcases hlooked with hhanded | ⟨-, hdiscarded⟩
      · exact hlater.found hhanded trivial
      · exact hlater.found hdiscarded (Task.isTimely_ok _)
    cases htask.symm.trans hresult
    exact hfound

/-- A request waits for ten milliseconds. The job is registered half a second after the request
gives up, or before it looks for the last time. -/
theorem registration_never_lost_probe :
    let context := MergeContext.fresh ⟨.nil, [.long], [], 1⟩ ⟨[]⟩
    let manager : Manager := .start 10 1000 .info .empty
    let start : System := ⟨manager, [.arrived probe, .registering context]⟩
    let looking : System := ⟨manager.increment .requestsReceived,
      [.looking probe .nil 10 0 false, .registering context]⟩
    let last := ((looking.move 0).wait 10).move 0
    let late := ((last.move 0).wait 500).move 1
    let early := last.move 1
    start.Reaches last ∧
      (last.move 0).tasks[0]? = some (.ended (.error (.contextTimeout .nil 10))) ∧
      (late.manager.table.entry .nil).finished = some 510 ∧
      (late.manager.table.entry .nil).active = none ∧
      early.manager.contexts[0]? = some context ∧
      ((early.move 0).tasks[0]? = some (.handing probe .nil 0) ∨
        early.manager.table.status .nil = .finished ∧
          (early.move 0).tasks[0]? = some (.ended (.ok .discarded))) := by
  intro context manager start looking last late early
  have hcontext : MergeContext.create ⟨.nil, [.long], [], 1⟩ ⟨[]⟩ = .ok context :=
    MergeContext.create_eq _ (by decide)
  have hrace : start.Race 1 context := by
    refine ⟨⟨⟨10, 1000, .info, .empty, rfl⟩, ?_⟩, rfl, ?_⟩
    · simp only [start, List.forall_mem_cons]
      exact ⟨.receive _, .register hcontext, List.forall_mem_nil _⟩
    · rintro (_ | _ | i) task hi hr
      · cases hi
        exact nofun
      · exact absurd rfl hr
      · cases hi
  have hrun : start.Reaches last :=
    .head (.act 0 (.turn rfl (.step (step_probe manager)))) <|
      (reaches_move looking 0).trans <| (reaches_wait _ 10).trans (reaches_move _ 0)
  have hgave : (last.move 0).tasks[0]? = some (.ended (.error (.contextTimeout .nil 10))) := rfl
  obtain ⟨hbefore, hafter⟩ := registration_never_lost hrace
  obtain ⟨hfinished, _, _, -, -, -, hfails⟩ := hbefore 0 probe last (last.move 0)
    ((last.move 0).wait 500) late hrun rfl (acts_move rfl) hgave (reaches_wait _ _) rfl (by decide)
    (acts_move rfl)
  obtain ⟨hentered, hfound, -⟩ := hafter 0 probe last early early (early.move 0) hrun rfl
    (acts_move rfl) .refl (by decide) rfl (acts_move rfl)
  exact ⟨hrun, hgave, hfinished, (hfails late .refl).1, hentered, hfound⟩

end System

end ShardQuery
