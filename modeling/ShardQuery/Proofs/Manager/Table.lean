import ShardQuery.Job.Table
import ShardQuery.Proofs.Lookup
/-!
# What the table knows of a job

All that the table holds of one job is its `Entry`. An operation on the table changes
the entry of its own job in one of a few ways, `Entry.Next`; of all other jobs it may
only forget what is as old as the retention time.
-/

namespace ShardQuery

namespace JobTable

@[ext] structure Entry where
  active : Option ContextId
  finished : Option Nat
  pending : Option (EngineError × Nat)

def entry (table : JobTable) (job : JobId) : Entry :=
  ⟨table.active.lookup job, table.finished.lookup job, table.pendingFailures.lookup job⟩

structure Distinct (table : JobTable) : Prop where
  finished : (table.finished.map Prod.fst).Nodup
  pending : (table.pendingFailures.map Prod.fst).Nodup

namespace Entry

def isFresh (now retention since : Nat) : Bool := now - since < retention

def aged (now retention : Nat) (entry : Entry) : Entry :=
  { entry with
    finished := entry.finished.filter (isFresh now retention)
    pending := entry.pending.filter fun failure => isFresh now retention failure.2 }

/-- A job that is active has not ended, and no error waits for it. -/
def Consistent (entry : Entry) : Prop :=
  entry.active.isSome = true → entry.finished = none ∧ entry.pending = none

inductive Next (now retention : Nat) (entry : Entry) : Entry → Prop where
  | kept : Next now retention entry entry
  | aged : Next now retention entry (entry.aged now retention)
  | entered (context : ContextId) : entry.aged now retention = ⟨none, none, none⟩ →
      Next now retention entry ⟨some context, none, none⟩
  /-- Registered while an error waited. -/
  | failed : entry.active = none → Next now retention entry ⟨none, some now, none⟩
  | retired : Next now retention entry ⟨none, some now, (entry.aged now retention).pending⟩
  | gaveUp (error : EngineError) : entry.active = none → entry.finished = none →
      Next now retention entry ⟨none, none, some (error, now)⟩

variable {now retention since time : Nat} {entry next : Entry} {context : ContextId}

theorem isFresh_of_le (h : time ≤ since) (htime : time ≤ now) (hnow : now < time + retention) :
    isFresh now retention since = true := by
  simp only [isFresh, decide_eq_true_eq]
  omega

@[simp] theorem aged_active (entry : Entry) : (entry.aged now retention).active = entry.active :=
  rfl

theorem aged_finished (h : entry.finished = some since) (hle : time ≤ since) (htime : time ≤ now)
    (hnow : now < time + retention) : (entry.aged now retention).finished = some since := by
  simp [aged, h, Option.filter, isFresh_of_le hle htime hnow]

theorem aged_pending {error : EngineError} (h : entry.pending = some (error, since))
    (hle : time ≤ since) (htime : time ≤ now) (hnow : now < time + retention) :
    (entry.aged now retention).pending = some (error, since) := by
  simp [aged, h, Option.filter, isFresh_of_le hle htime hnow]

theorem aged_aged (entry : Entry) :
    (entry.aged now retention).aged now retention = entry.aged now retention := by
  simp [aged, Option.filter_filter]

theorem filter_or {α : Type} (p : α → Bool) (o : Option α) :
    o.filter p = o ∨ o.filter p = none ∧ ∃ x, o = some x ∧ p x = false := by
  cases o with
  | none => exact .inl rfl
  | some x =>
    cases hp : p x with
    | true => exact .inl (by simp [Option.filter, hp])
    | false => exact .inr ⟨by simp [Option.filter, hp], x, rfl, hp⟩

theorem Consistent.aged (h : entry.Consistent) : (entry.aged now retention).Consistent := by
  intro hactive
  obtain ⟨hf, hp⟩ := h hactive
  simp [Entry.aged, hf, hp]

/-- A job is known as active or ended, or an error waits for it, or nothing is known of it. -/
theorem unregistered (now retention : Nat) (entry : Entry) :
    (entry.active.isSome = true ∨ (entry.aged now retention).finished.isSome = true) ∨
      (entry.active = none ∧ (entry.aged now retention).finished = none ∧
        ∃ error since, (entry.aged now retention).pending = some (error, since)) ∨
      entry.aged now retention = ⟨none, none, none⟩ := by
  obtain ⟨active, finished, pending⟩ := entry
  cases active with
  | some context => exact .inl (.inl rfl)
  | none =>
    cases hf : finished.filter (isFresh now retention) with
    | some since => exact .inl (.inr (by simp [aged, hf]))
    | none =>
      cases hp : pending.filter fun failure => isFresh now retention failure.2 with
      | some failure => exact .inr (.inl ⟨rfl, hf, failure.1, failure.2, hp⟩)
      | none => exact .inr (.inr (by simp [aged, hf, hp]))

theorem Next.consistent (h : Next now retention entry next) (hc : entry.Consistent) :
    next.Consistent := by
  cases h with
  | kept => exact hc
  | aged => exact hc.aged
  | entered => exact fun _ => ⟨rfl, rfl⟩
  | failed => exact nofun
  | retired => exact nofun
  | gaveUp => exact nofun

/-- A job that ended no earlier than `time` is still known as ended before the retention time has
passed. -/
theorem Next.finished (h : Next now retention entry next) (hf : entry.finished = some since)
    (hle : time ≤ since) (htime : time ≤ now) (hnow : now < time + retention) :
    ∃ later, time ≤ later ∧ next.finished = some later := by
  cases h with
  | kept => exact ⟨since, hle, hf⟩
  | aged => exact ⟨since, hle, aged_finished hf hle htime hnow⟩
  | entered context he =>
    have ha := aged_finished hf hle htime hnow
    simp [he] at ha
  | failed => exact ⟨now, htime, rfl⟩
  | retired => exact ⟨now, htime, rfl⟩
  | gaveUp error _ hnone => simp [hf] at hnone

theorem Next.active (h : Next now retention entry next) (ha : entry.active = some context) :
    next.active = some context ∨ next.finished = some now := by
  cases h with
  | kept => exact .inl ha
  | aged => exact .inl ha
  | entered id he =>
    have hactive := congrArg Entry.active he
    simp [ha] at hactive
  | failed hnone => simp [ha] at hnone
  | retired => exact .inr rfl
  | gaveUp error hnone => simp [ha] at hnone

/-- The job has this context, or it is known since `time` or later that it ended. -/
def Registered (context : ContextId) (time : Nat) (entry : Entry) : Prop :=
  entry.active = some context ∨ ∃ since, time ≤ since ∧ entry.finished = some since

theorem Next.registered (h : Next now retention entry next) (hr : entry.Registered context time)
    (htime : time ≤ now) (hnow : now < time + retention) : next.Registered context time := by
  rcases hr with ha | ⟨since, hle, hf⟩
  · exact (h.active ha).imp_right fun hf => ⟨now, htime, hf⟩
  · exact .inr (h.finished hf hle htime hnow)

/-- It is known since `time` or later that the job ended, or that it will as soon as it is
registered. -/
def Doomed (time : Nat) (entry : Entry) : Prop :=
  (∃ since, time ≤ since ∧ entry.finished = some since) ∨
    ∃ error since, time ≤ since ∧ entry.pending = some (error, since)

theorem Next.doomed (h : Next now retention entry next) (hd : entry.Doomed time)
    (htime : time ≤ now) (hnow : now < time + retention) : next.Doomed time := by
  rcases hd with ⟨since, hle, hf⟩ | ⟨error, since, hle, hp⟩
  · exact .inl (h.finished hf hle htime hnow)
  · cases h with
    | kept => exact .inr ⟨error, since, hle, hp⟩
    | aged => exact .inr ⟨error, since, hle, aged_pending hp hle htime hnow⟩
    | entered context he =>
      have ha := aged_pending hp hle htime hnow
      simp [he] at ha
    | failed => exact .inl ⟨now, htime, rfl⟩
    | retired => exact .inl ⟨now, htime, rfl⟩
    | gaveUp error => exact .inr ⟨error, now, htime, rfl⟩

end Entry

-- ---------------------------------------------------------------------------
-- The operations
-- ---------------------------------------------------------------------------

variable {table : JobTable} {now retention : Nat} {job other : JobId} {context : ContextId}

theorem lookup_put {α : Type} (job other : JobId) (value : α) (entries : List (JobId × α)) :
    (put job value entries).lookup other =
      if other = job then some value else entries.lookup other := by
  unfold put
  split
  · rename_i h
    simp [h]
  · rename_i h
    rw [lookup_cons_ne h, lookup_filter_ne _ h]

theorem lookup_drop {α : Type} (job other : JobId) (entries : List (JobId × α)) :
    (entries.filter (·.1 != job)).lookup other =
      if other = job then none else entries.lookup other := by
  split
  · rename_i h
    rw [h, lookup_filter_self]
  · rename_i h
    exact lookup_filter_ne _ h

theorem nodup_filter {α : Type} {entries : List (JobId × α)} (p : JobId × α → Bool)
    (h : (entries.map Prod.fst).Nodup) : ((entries.filter p).map Prod.fst).Nodup :=
  h.sublist (List.filter_sublist.map _)

theorem nodup_put {α : Type} {entries : List (JobId × α)} (value : α)
    (h : (entries.map Prod.fst).Nodup) : ((put job value entries).map Prod.fst).Nodup := by
  refine List.nodup_cons.mpr ⟨?_, nodup_filter _ h⟩
  simp

theorem status_eq_active : table.status job = .active context ↔
    (table.entry job).active = some context := by
  cases ha : table.active.lookup job <;> cases hf : table.finished.lookup job <;>
    simp [status, entry, ha, hf]

theorem status_eq_finished : table.status job = .finished ↔
    (table.entry job).active = none ∧ (table.entry job).finished.isSome = true := by
  cases ha : table.active.lookup job <;> cases hf : table.finished.lookup job <;>
    simp [status, entry, ha, hf]

theorem status_eq_unknown : table.status job = .unknown ↔
    (table.entry job).active = none ∧ (table.entry job).finished = none := by
  cases ha : table.active.lookup job <;> cases hf : table.finished.lookup job <;>
    simp [status, entry, ha, hf]

theorem entry_prune (h : table.Distinct) (job : JobId) :
    (table.prune now retention).entry job = (table.entry job).aged now retention := by
  simp only [entry, prune, Entry.aged, lookup_filter _ h.finished, lookup_filter _ h.pending]
  rfl

theorem entry_putActive (table : JobTable) (job other : JobId) (context : ContextId) :
    entry { table with active := put job context table.active } other =
      if other = job then { table.entry other with active := some context }
      else table.entry other := by
  simp only [entry, lookup_put]
  split <;> rfl

theorem entry_putFinished (table : JobTable) (job other : JobId) (since : Nat) :
    entry { table with finished := put job since table.finished } other =
      if other = job then { table.entry other with finished := some since }
      else table.entry other := by
  simp only [entry, lookup_put]
  split <;> rfl

theorem entry_putPending (table : JobTable) (job other : JobId) (failure : EngineError × Nat) :
    entry { table with pendingFailures := put job failure table.pendingFailures } other =
      if other = job then { table.entry other with pending := some failure }
      else table.entry other := by
  simp only [entry, lookup_put]
  split <;> rfl

theorem entry_dropActive (table : JobTable) (job other : JobId) :
    entry { table with active := table.active.filter (·.1 != job) } other =
      if other = job then { table.entry other with active := none } else table.entry other := by
  simp only [entry, lookup_drop]
  split <;> rfl

theorem entry_dropPending (table : JobTable) (job other : JobId) :
    entry { table with pendingFailures := table.pendingFailures.filter (·.1 != job) } other =
      if other = job then { table.entry other with pending := none } else table.entry other := by
  simp only [entry, lookup_drop]
  split <;> rfl

theorem Distinct.prune (h : table.Distinct) : (table.prune now retention).Distinct :=
  ⟨nodup_filter _ h.finished, nodup_filter _ h.pending⟩

theorem Distinct.finish (h : table.Distinct) : (table.finish now retention job).Distinct :=
  ⟨nodup_put _ h.prune.finished, h.prune.pending⟩

-- ---------------------------------------------------------------------------
-- Ending a job
-- ---------------------------------------------------------------------------

theorem entry_finish (h : table.Distinct) (job other : JobId) :
    (table.finish now retention job).entry other =
      if other = job then { (table.entry other).aged now retention with finished := some now }
      else (table.entry other).aged now retention := by
  rw [finish, entry_putFinished, entry_prune h]

theorem Distinct.dropActive (h : table.Distinct) (job : JobId) :
    JobTable.Distinct { table with active := table.active.filter (·.1 != job) } :=
  ⟨h.finished, h.pending⟩

theorem Distinct.retire (h : table.Distinct) : (table.retire now retention job).2.Distinct :=
  (h.dropActive job).finish

theorem entry_retire (h : table.Distinct) (job other : JobId) :
    (table.retire now retention job).2.entry other =
      if other = job then ⟨none, some now, ((table.entry other).aged now retention).pending⟩
      else (table.entry other).aged now retention := by
  rw [retire, entry_finish (h.dropActive job), entry_dropActive]
  split <;> rfl

-- ---------------------------------------------------------------------------
-- Giving up
-- ---------------------------------------------------------------------------

theorem giveUp_unknown (h : table.status job = .unknown) (error : EngineError) :
    table.giveUp now retention job error =
      (.unknown, { table.prune now retention with
        pendingFailures := put job (error, now) (table.prune now retention).pendingFailures }) := by
  simp [giveUp, h]

theorem giveUp_known (h : table.status job ≠ .unknown) (error : EngineError) :
    table.giveUp now retention job error = (table.status job, table) := by
  unfold giveUp
  split
  · contradiction
  · rfl

theorem giveUp_fst (error : EngineError) :
    (table.giveUp now retention job error).1 = table.status job := by
  unfold giveUp
  split
  · rename_i h
    exact h.symm
  · rfl

theorem Distinct.giveUp (h : table.Distinct) (error : EngineError) :
    (table.giveUp now retention job error).2.Distinct := by
  by_cases hunknown : table.status job = .unknown
  · rw [giveUp_unknown hunknown]
    exact ⟨h.prune.finished, nodup_put _ h.prune.pending⟩
  · rw [giveUp_known hunknown]
    exact h

theorem entry_giveUp (h : table.Distinct) (hunknown : table.status job = .unknown)
    (error : EngineError) (other : JobId) :
    (table.giveUp now retention job error).2.entry other =
      if other = job then ⟨none, none, some (error, now)⟩
      else (table.entry other).aged now retention := by
  rw [giveUp_unknown hunknown, entry_putPending, entry_prune h]
  obtain ⟨ha, hf⟩ := status_eq_unknown.mp hunknown
  split <;> rename_i hj
  · subst hj
    simp [Entry.aged, ha, hf]
  · rfl

theorem entry_giveUp_ne (h : table.Distinct) (error : EngineError) (hj : other ≠ job) :
    (table.giveUp now retention job error).2.entry other = table.entry other ∨
      (table.giveUp now retention job error).2.entry other =
        (table.entry other).aged now retention := by
  by_cases hunknown : table.status job = .unknown
  · rw [entry_giveUp h hunknown, if_neg hj]
    exact .inr rfl
  · rw [giveUp_known hunknown]
    exact .inl rfl

-- ---------------------------------------------------------------------------
-- Registering
-- ---------------------------------------------------------------------------

theorem Distinct.dropPending (h : table.Distinct) (job : JobId) :
    JobTable.Distinct
      { table with pendingFailures := table.pendingFailures.filter (·.1 != job) } :=
  ⟨h.finished, nodup_filter _ h.pending⟩

theorem status_prune (h : table.Distinct) : (table.prune now retention).status job = .unknown ↔
    (table.entry job).active = none ∧ ((table.entry job).aged now retention).finished = none := by
  rw [status_eq_unknown, entry_prune h, Entry.aged_active]

theorem register_refused (h : table.Distinct) (context : ContextId)
    (hknown : (table.entry job).active.isSome = true ∨
      ((table.entry job).aged now retention).finished.isSome = true) :
    table.register now retention job context = (.refused, table.prune now retention) := by
  have hstatus : (table.prune now retention).status job ≠ .unknown := by
    rw [ne_eq, status_prune h]
    rintro ⟨ha, hf⟩
    simp [ha, hf] at hknown
  simp [register, hstatus]

theorem register_failed (h : table.Distinct) (context : ContextId) {error : EngineError}
    {since : Nat} (hactive : (table.entry job).active = none)
    (hfinished : ((table.entry job).aged now retention).finished = none)
    (hpending : ((table.entry job).aged now retention).pending = some (error, since)) :
    (table.register now retention job context).1 = .failed error ∧
      ∀ other, (table.register now retention job context).2.entry other =
        if other = job then ⟨none, some now, none⟩
        else (table.entry other).aged now retention := by
  have hstatus := (status_prune h).mpr ⟨hactive, hfinished⟩
  rw [← entry_prune h] at hpending
  have hlookup : (table.prune now retention).pendingFailures.lookup job = some (error, since) :=
    hpending
  simp only [register, hstatus, ne_eq, not_true_eq_false, ↓reduceIte, hlookup, true_and]
  intro other
  rw [entry_finish (h.prune.dropPending job), entry_dropPending, entry_prune h]
  split <;> rename_i hj
  · subst hj
    simp [Entry.aged, hactive]
  · exact Entry.aged_aged _

theorem register_active (h : table.Distinct) (context : ContextId)
    (hentry : (table.entry job).aged now retention = ⟨none, none, none⟩) :
    (table.register now retention job context).1 = .active ∧
      ∀ other, (table.register now retention job context).2.entry other =
        if other = job then ⟨some context, none, none⟩
        else (table.entry other).aged now retention := by
  have hstatus := (status_prune h).mpr
    ⟨congrArg Entry.active hentry, congrArg Entry.finished hentry⟩
  have hlookup : (table.prune now retention).pendingFailures.lookup job = none := by
    have hpending := congrArg Entry.pending hentry
    rwa [← entry_prune h] at hpending
  simp only [register, hstatus, ne_eq, not_true_eq_false, ↓reduceIte, hlookup, true_and]
  intro other
  rw [entry_putActive, entry_prune h]
  split <;> rename_i hj
  · subst hj
    rw [hentry]
  · rfl

theorem Distinct.register (h : table.Distinct) (context : ContextId) :
    (table.register now retention job context).2.Distinct := by
  simp only [JobTable.register]
  split
  · exact h.prune
  · split
    · exact (h.prune.dropPending job).finish
    · exact ⟨h.prune.finished, h.prune.pending⟩

theorem entry_register_failed (h : table.Distinct) {context : ContextId} {error : EngineError}
    (hr : (table.register now retention job context).1 = .failed error) :
    (table.register now retention job context).2.entry job = ⟨none, some now, none⟩ := by
  rcases Entry.unregistered now retention (table.entry job) with
    hknown | ⟨ha, hf, error, since, hp⟩ | hfree
  · rw [register_refused h context hknown] at hr
    cases hr
  · rw [(register_failed h context ha hf hp).2, if_pos rfl]
  · rw [(register_active h context hfree).1] at hr
    cases hr

theorem entry_register_ne (h : table.Distinct) (context : ContextId) (hj : other ≠ job) :
    (table.register now retention job context).2.entry other =
      (table.entry other).aged now retention := by
  rcases Entry.unregistered now retention (table.entry job) with
    hknown | ⟨ha, hf, error, since, hp⟩ | hfree
  · rw [register_refused h context hknown, entry_prune h]
  · rw [(register_failed h context ha hf hp).2, if_neg hj]
  · rw [(register_active h context hfree).2, if_neg hj]

-- ---------------------------------------------------------------------------
-- One entry after an operation
-- ---------------------------------------------------------------------------

theorem next_retire (h : table.Distinct) (job other : JobId) :
    (table.entry other).Next now retention ((table.retire now retention job).2.entry other) := by
  rw [entry_retire h]
  split
  · exact .retired
  · exact .aged

theorem next_giveUp (h : table.Distinct) (error : EngineError) (other : JobId) :
    (table.entry other).Next now retention
      ((table.giveUp now retention job error).2.entry other) := by
  by_cases hunknown : table.status job = .unknown
  · rw [entry_giveUp h hunknown]
    split <;> rename_i hj
    · subst hj
      obtain ⟨ha, hf⟩ := status_eq_unknown.mp hunknown
      exact .gaveUp error ha hf
    · exact .aged
  · rw [giveUp_known hunknown]
    exact .kept

theorem next_register (h : table.Distinct) (context : ContextId) (other : JobId) :
    (table.entry other).Next now retention
      ((table.register now retention job context).2.entry other) := by
  rcases Entry.unregistered now retention (table.entry job) with
    hknown | ⟨ha, hf, error, since, hp⟩ | hfree
  · rw [register_refused h context hknown, entry_prune h]
    exact .aged
  · rw [(register_failed h context ha hf hp).2]
    split <;> rename_i hj
    · subst hj
      exact .failed ha
    · exact .aged
  · rw [(register_active h context hfree).2]
    split <;> rename_i hj
    · subst hj
      exact .entered context hfree
    · exact .aged

-- ---------------------------------------------------------------------------
-- The context of an active job
-- ---------------------------------------------------------------------------

variable {id : ContextId}

theorem active_retire (h : table.Distinct)
    (ha : ((table.retire now retention job).2.entry other).active = some id) :
    (table.entry other).active = some id := by
  rw [entry_retire h] at ha
  split at ha
  · cases ha
  · exact ha

theorem active_giveUp (h : table.Distinct) (error : EngineError)
    (ha : ((table.giveUp now retention job error).2.entry other).active = some id) :
    (table.entry other).active = some id := by
  by_cases hunknown : table.status job = .unknown
  · rw [entry_giveUp h hunknown] at ha
    split at ha
    · cases ha
    · exact ha
  · rwa [giveUp_known hunknown] at ha

theorem active_register (h : table.Distinct)
    (ha : ((table.register now retention job context).2.entry other).active = some id) :
    (table.entry other).active = some id ∨
      other = job ∧ id = context ∧ (table.register now retention job context).1 = .active := by
  rcases Entry.unregistered now retention (table.entry job) with
    hknown | ⟨hactive, hf, error, since, hp⟩ | hfree
  · rw [register_refused h context hknown, entry_prune h] at ha
    exact .inl ha
  · rw [(register_failed h context hactive hf hp).2] at ha
    split at ha
    · cases ha
    · exact .inl ha
  · rw [(register_active h context hfree).2] at ha
    split at ha <;> rename_i hj
    · exact .inr ⟨hj, (Option.some.inj ha).symm, (register_active h context hfree).1⟩
    · exact .inl ha

theorem register_keeps_active (h : table.Distinct) (ha : (table.entry other).active = some id) :
    ((table.register now retention job context).2.entry other).active = some id := by
  have haged : ((table.entry other).aged now retention).active = some id := ha
  by_cases hj : other = job
  · subst hj
    rw [register_refused h context (.inl (by simp [ha])), entry_prune h, haged]
  · rw [entry_register_ne h context hj, haged]

end JobTable

end ShardQuery
