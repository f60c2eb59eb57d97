import ShardQuery.Execution.Chain
import ShardQuery.Proofs.Execution.Sorting
import ShardQuery.Proofs.Execution.Windows
/-!
# Runs that are cancelled half-way

A row of the source raises the flag as it is taken. Stages that look at the flag with
each row stop right there. A sort looks at it only once it has all rows, and a window
does not look at it while it skips.
-/

namespace ShardQuery

-- ---------------------------------------------------------------------------
-- Sessions
-- ---------------------------------------------------------------------------

namespace Session

/-- The flag is down, and row `k` of the source will raise it. -/
structure Awaits (k : Nat) (session : Session) : Prop where
  flag : session.cancelled = false
  trigger : session.cancelAt = some k
  before : session.pulled < k

structure Alike (s t : Session) : Prop where
  flag : t.cancelled = s.cancelled
  trigger : t.cancelAt = s.cancelAt
  count : t.pulled = s.pulled

variable {k : Nat} {s t u : Session}

theorem Alike.refl (s : Session) : s.Alike s := ⟨rfl, rfl, rfl⟩

theorem Alike.trans (h : s.Alike t) (h' : t.Alike u) : s.Alike u :=
  ⟨h'.flag.trans h.flag, h'.trigger.trans h.trigger, h'.count.trans h.count⟩

theorem Alike.awaits (h : s.Alike t) (hs : s.Awaits k) : t.Awaits k :=
  ⟨h.flag.trans hs.flag, h.trigger.trans hs.trigger, h.count ▸ hs.before⟩

theorem Awaits.pull (h : s.Awaits k) (hk : s.pulled + 1 < k) : s.pull.Awaits k := by
  refine ⟨?_, h.trigger, hk⟩
  simp only [Session.pull, h.flag, h.trigger, Bool.false_or, beq_eq_false_iff_ne, Ne,
    Option.some.injEq]
  omega

theorem Awaits.pull_last (h : s.Awaits k) (hk : s.pulled + 1 = k) : s.pull.cancelled = true := by
  simp only [Session.pull, h.trigger, hk, beq_self_eq_true, Bool.or_true]

theorem pull_cancelled (h : s.cancelled = true) : s.pull.cancelled = true := by
  simp only [Session.pull, h, Bool.true_or]

theorem pull_awaited (h : s.Awaits k ∨ s.cancelled = true) :
    s.pull.Awaits k ∨ s.pull.cancelled = true := by
  rcases h with h | h
  · rcases Nat.lt_or_eq_of_le (Nat.succ_le_of_lt h.before) with hlast | hlast
    · exact .inl (h.pull hlast)
    · exact .inr (h.pull_last hlast)
  · exact .inr (pull_cancelled h)

theorem pulled_pull (s : Session) : s.pull.pulled = s.pulled + 1 := rfl

end Session

-- ---------------------------------------------------------------------------
-- Work that heeds the flag
-- ---------------------------------------------------------------------------

namespace Run

def Quiet {α : Type} (x : Run α) : Prop := ∀ session, Session.Alike session (x.within session).2

/-- Work that ends as soon as row `k` raises the flag, having taken no further row. -/
def Heeds {α : Type} (k : Nat) (x : Run α) : Prop :=
  ∀ ⦃session⦄, session.Awaits k → match x.within session with
    | (.ok _, after) => after.Awaits k
    | (.error e, after) => after.Awaits k ∨ (e = .cancelled ∧ after.pulled = k)

variable {α β : Type} {k : Nat} {x : Run α} {f : α → Run β}

theorem quiet_ofExcept (result : Except EngineError α) : Quiet (Work.ofExcept result) :=
  Session.Alike.refl

theorem quiet_pure (a : α) : Quiet (pure a) := Session.Alike.refl

theorem quiet_checkCancelled : Quiet checkCancelled := by
  intro session
  rw [within_checkCancelled]
  exact .refl session

theorem Quiet.bind (hx : Quiet x) (hf : ∀ a, Quiet (f a)) : Quiet (x >>= f) := by
  intro session
  have hfirst := hx session
  rw [Work.within_bind]
  rcases hrun : x.within session with ⟨e | a, after⟩ <;> rw [hrun] at hfirst
  · exact hfirst
  · exact hfirst.trans (hf a after)

theorem quiet_put (row : Row) : Quiet (put row) := by
  intro session
  rw [put, Work.within_bind, Work.within_get]
  dsimp only
  rw [Work.within_bind, Work.within_ofExcept]
  cases session.sink.put row <;> exact ⟨rfl, rfl, rfl⟩

theorem Quiet.heeds (hx : Quiet x) : Heeds k x := by
  intro session h
  have hafter := (hx session).awaits h
  rcases hrun : x.within session with ⟨e | a, after⟩ <;> rw [hrun] at hafter
  · exact .inl hafter
  · exact hafter

theorem Heeds.bind (hx : Heeds k x) (hf : ∀ a, Heeds k (f a)) : Heeds k (x >>= f) := by
  intro session h
  have hfirst := hx h
  rw [Work.within_bind]
  rcases hrun : x.within session with ⟨e | a, after⟩ <;> rw [hrun] at hfirst
  · exact hfirst
  · exact hf a hfirst

theorem Heeds.stopped (hx : Heeds k x) {session : Session} (h : session.Awaits k)
    (hk : k ≤ (x.within session).2.pulled) :
    (x.within session).1 = .error .cancelled ∧ (x.within session).2.pulled = k := by
  have hend := hx h
  rcases hrun : x.within session with ⟨e | a, after⟩ <;> rw [hrun] at hend hk
  · rcases hend with hawaits | ⟨rfl, hpulled⟩
    · exact absurd hk (Nat.not_le_of_lt hawaits.before)
    · exact ⟨rfl, hpulled⟩
  · exact absurd hk (Nat.not_le_of_lt hend.before)

end Run

-- ---------------------------------------------------------------------------
-- Adapters
-- ---------------------------------------------------------------------------

namespace Adapter

/-- Whether the adapter looks at the flag with each row; a window does not while it skips. -/
def IsAlert : Adapter → Prop
  | window (_ + 1) _ _ => False
  | _ => True

variable {cancelled : Bool} {item : Item} {adapter : Adapter} {adapters : List Adapter}

theorem IsAlert.pass (h : adapter.IsAlert) (cancelled : Bool) (item : Item) :
    (adapter.pass cancelled item).2.IsAlert := by
  cases adapter with
  | filter => exact h
  | window skip =>
    cases skip with
    | zero => exact h
    | succ => exact h.elim

theorem IsAlert.pass_cancelled (h : adapter.IsAlert) (item : Item) :
    (adapter.pass true item).1 = some (.error .cancelled) := by
  cases adapter with
  | filter => rfl
  | window skip =>
    cases skip with
    | zero => rfl
    | succ => exact h.elim

theorem passAll_eq_nil : (passAll cancelled item adapters).2 = [] ↔ adapters = [] := by
  cases adapters with
  | nil => exact Iff.rfl
  | cons adapter rest =>
    rw [passAll]
    rcases adapter.pass cancelled item with ⟨_ | passed, next⟩ <;> simp

theorem isAlert_passAll (h : ∀ adapter ∈ adapters, adapter.IsAlert) (cancelled : Bool)
    (item : Item) : ∀ adapter ∈ (passAll cancelled item adapters).2, adapter.IsAlert := by
  induction adapters generalizing item with
  | nil => exact h
  | cons adapter rest ih =>
    obtain ⟨hadapter, hrest⟩ := List.forall_mem_cons.mp h
    have hnext := hadapter.pass cancelled item
    rw [passAll]
    rcases hpass : adapter.pass cancelled item with ⟨_ | passed, next⟩ <;> rw [hpass] at hnext
    · exact List.forall_mem_cons.mpr ⟨hnext, hrest⟩
    · exact List.forall_mem_cons.mpr ⟨hnext, ih hrest passed⟩

theorem passAll_cancelled (h : ∀ adapter ∈ adapters, adapter.IsAlert) (item : Item) :
    ∃ passed others, passAll true item adapters = (some passed, others) ∧
      (adapters = [] ∨ passed = .error .cancelled) := by
  induction adapters generalizing item with
  | nil => exact ⟨item, [], rfl, .inl rfl⟩
  | cons adapter rest ih =>
    obtain ⟨hadapter, hrest⟩ := List.forall_mem_cons.mp h
    obtain ⟨last, others, hpassed, hlast⟩ := ih hrest (.error .cancelled)
    have hfirst : adapter.pass true item = (some (.error .cancelled), (adapter.pass true item).2) :=
      Prod.ext (hadapter.pass_cancelled item) rfl
    rw [passAll, hfirst]
    dsimp only
    rw [hpassed]
    refine ⟨last, _, rfl, .inr ?_⟩
    rcases hlast with rfl | rfl
    · cases hpassed
      rfl
    · rfl

end Adapter

-- ---------------------------------------------------------------------------
-- Folds that are stopped
-- ---------------------------------------------------------------------------

namespace Flow

open Run

variable {α : Type} {k : Nat} {step : α → Item → Run α} {session : Session}

/-- A fold behind adapters that look at the flag, or whose own step does, ends with row `k`. -/
theorem foldSource_heeds (hquiet : ∀ state item, Quiet (step state item)) (state : α)
    {adapters : List Adapter} (halert : ∀ adapter ∈ adapters, adapter.IsAlert)
    (hstop : ∀ state item session, session.cancelled = true →
      adapters = [] ∨ item = .error .cancelled →
      (step state item).within session = (.error .cancelled, session))
    (items : List Item) (h : session.Awaits k) :
    let run := (foldSource step state adapters items).run session
    run.2.Awaits k ∨ (run.1.2 = some .cancelled ∧ run.2.pulled = k) := by
  induction items generalizing state adapters session with
  | nil => exact .inl h
  | cons item rest ih =>
    cases hspent : adapters.any Adapter.isSpent with
    | true =>
      rw [foldSource, hspent]
      exact .inl h
    | false =>
      rw [foldSource_pull step state hspent]
      by_cases hk : session.pulled + 1 < k
      · have hpull := h.pull hk
        have hnext := Adapter.isAlert_passAll halert false item
        have hstill : ∀ state passed session, session.cancelled = true →
            (Adapter.passAll false item adapters).2 = [] ∨ passed = .error .cancelled →
            (step state passed).within session = (.error .cancelled, session) :=
          fun state passed session hflag hor =>
            hstop state passed session hflag (hor.imp_left Adapter.passAll_eq_nil.mp)
        rw [hpull.flag]
        rcases hpass : Adapter.passAll false item adapters with ⟨_ | passed, others⟩ <;>
          rw [hpass] at hnext hstill
        · exact ih state hnext hstill hpull
        · have hafter := hquiet state passed session.pull
          dsimp only
          rcases hrun : (step state passed).within session.pull with ⟨e | next, after⟩ <;>
            rw [hrun] at hafter
          · exact .inl (hafter.awaits hpull)
          · exact ih next hnext hstill (hafter.awaits hpull)
      · have hk : session.pulled + 1 = k := Nat.le_antisymm h.before (Nat.le_of_not_lt hk)
        obtain ⟨passed, others, hpass, hpassed⟩ := Adapter.passAll_cancelled halert item
        rw [h.pull_last hk, hpass]
        dsimp only
        rw [hstop state passed session.pull (h.pull_last hk) hpassed]
        exact .inr ⟨rfl, hk⟩

-- ---------------------------------------------------------------------------
-- Drains
-- ---------------------------------------------------------------------------

theorem quiet_collect (rows : List Row) (item : Item) : Quiet (collect rows item) := by
  intro session
  rw [within_collect]
  exact .refl session

theorem collect_stops {adapters : List Adapter} {item : Item} (hsome : adapters ≠ [])
    (h : adapters = [] ∨ item = .error .cancelled) (rows : List Row) (session : Session) :
    (collect rows item).within session = (.error .cancelled, session) := by
  rw [h.resolve_left hsome]
  rfl

theorem heeds_rows {adapters : List Adapter} (hsome : adapters ≠ [])
    (halert : ∀ adapter ∈ adapters, adapter.IsAlert) (items : List Item) :
    Heeds k (streamed items adapters).rows := by
  intro session h
  have hfold := foldSource_heeds quiet_collect [] halert
    (fun rows _ session _ hor => collect_stops hsome hor rows session) items h
  rw [rows_within, fold]
  rcases hrun : (foldSource collect [] adapters items).run session with ⟨⟨rows, _ | e⟩, after⟩ <;>
    rw [hrun] at hfold
  · exact hfold.resolve_right fun hend => Option.some_ne_none _ hend.1.symm
  · exact hfold.imp_right (And.imp_left Option.some.inj)

theorem quiet_rows_materialized (rows : List Row) : Quiet (materialized rows).rows := by
  intro session
  rw [rows_materialized]
  exact .refl session

-- ---------------------------------------------------------------------------
-- Stages that look at the flag with each row
-- ---------------------------------------------------------------------------

theorem quiet_guarded {work : α → Row → Run α} (hwork : ∀ state row, Quiet (work state row))
    (state : α) (item : Item) : Quiet (guarded work state item) :=
  quiet_checkCancelled.bind fun _ => (quiet_ofExcept item).bind (hwork state)

theorem heeds_consume {work : α → Row → Run α} (hwork : ∀ state row, Quiet (work state row))
    (start : α) (items : List Item) : Heeds k ((streamed items []).consume work start) := by
  intro session h
  have hfold := foldSource_heeds (quiet_guarded hwork) start (List.forall_mem_nil _)
    (fun state item session hflag _ => guarded_cancelled work state item hflag) items h
  rw [consume_within, fold]
  rcases hrun : (foldSource (guarded work) start [] items).run session with
    ⟨⟨result, _ | e⟩, after⟩ <;> rw [hrun] at hfold
  · exact hfold.resolve_right fun hend => Option.some_ne_none _ hend.1.symm
  · exact hfold.imp_right (And.imp_left Option.some.inj)

end Flow

namespace Action

open Run

variable {α β : Type} {k : Nat}

theorem heeds_materialized {x : Run α} {f : α → Run β} (hx : Heeds k x) (hf : ∀ a, Quiet (f a))
    (rows : β → List Row) :
    Heeds k ((x >>= fun a => do return Flow.materialized (rows (← f a))) >>= Flow.rows) := by
  rw [bind_assoc]
  refine hx.bind fun a => ?_
  rw [bind_assoc]
  refine Quiet.heeds ((hf a).bind fun b => ?_)
  rw [pure_bind]
  exact Flow.quiet_rows_materialized (rows b)

theorem heeds_aggregation (aggregators : List Aggregator) (items : List Item) :
    Heeds k ((aggregation aggregators).apply (.streamed items []) >>= Flow.rows) :=
  heeds_materialized (Flow.heeds_consume (fun _ _ => quiet_ofExcept _) _ items)
    (fun _ => quiet_ofExcept _) fun row => [row]

theorem heeds_group (keys : List Expression) (aggregators : List Aggregator) (items : List Item) :
    Heeds k ((group keys aggregators).apply (.streamed items []) >>= Flow.rows) :=
  heeds_materialized (Flow.heeds_consume (fun _ _ => quiet_ofExcept _) _ items)
    (fun _ => quiet_ofExcept _) id

theorem heeds_write (inputs : List Expression) (items : List Item) :
    Heeds k ((write inputs).apply (.streamed items []) >>= Flow.rows) := by
  have hwork : ∀ (written : Nat) (row : Row), Quiet do
      Run.put (← Work.ofExcept (Expression.project inputs row))
      return written + 1 := fun written row =>
    (quiet_ofExcept _).bind fun projected => (quiet_put projected).bind fun _ => quiet_pure _
  rw [apply, bind_assoc]
  refine (Flow.heeds_consume hwork 0 items).bind fun written => ?_
  rw [pure_bind]
  exact (Flow.quiet_rows_materialized _).heeds

theorem heeds_filter (query : Expression) (outputs : List Expression) (items : List Item) :
    Heeds k ((filter query outputs).apply (.streamed items []) >>= Flow.rows) := by
  have halert : ∀ adapter ∈ [Adapter.filter query outputs], adapter.IsAlert :=
    List.forall_mem_singleton.mpr trivial
  rw [apply, pure_bind]
  exact Flow.heeds_rows (List.cons_ne_nil _ _) halert items

end Action

-- ---------------------------------------------------------------------------
-- Windows, which skip unseen
-- ---------------------------------------------------------------------------

namespace Flow

variable {k : Nat} {session : Session}

theorem foldSource_skip {α : Type} (step : α → Item → Run α) (state : α) (skip : Nat)
    {take : Option Nat} (htake : take ≠ some 0) (outputs : List Expression) (item : Item)
    (rest : List Item) (session : Session) :
    (foldSource step state [.window (skip + 1) take outputs] (item :: rest)).run session =
      (foldSource step state [.window skip take outputs] rest).run session.pull :=
  foldSource_pull step state (Adapter.not_isSpent_window htake (skip + 1) outputs) item rest session

theorem pull_skip (session : Session) (skip : Nat) (rest : List Item) :
    session.pull.pulled + skip = session.pulled + (skip + 1) ∧
      session.pull.pulled + min (skip + 1) rest.length =
        session.pulled + min (skip + 1 + 1) (rest.length + 1) := by
  rw [Session.pulled_pull]
  omega

theorem foldSource_window_cancelled (rows : List Row) (skip : Nat) {take : Option Nat}
    (htake : take ≠ some 0) (outputs : List Expression) (items : List Item)
    (h : session.cancelled = true) :
    let run := (foldSource collect rows [.window skip take outputs] items).run session
    run.1 = (rows, if skip < items.length then some .cancelled else none) ∧
      run.2.pulled = session.pulled + min (skip + 1) items.length := by
  induction items generalizing skip session with
  | nil => exact ⟨rfl, rfl⟩
  | cons item rest ih =>
    have hpull := Session.pull_cancelled h
    cases skip with
    | zero =>
      rw [foldSource_pull collect rows (Adapter.not_isSpent_window htake 0 outputs), hpull,
        List.length_cons, if_pos (Nat.succ_pos _), Nat.min_eq_left (by omega)]
      exact ⟨rfl, rfl⟩
    | succ skip =>
      have hrest := ih skip hpull
      rw [(pull_skip session skip rest).2] at hrest
      simp only [foldSource_skip collect rows skip htake, List.length_cons,
        Nat.add_lt_add_iff_right]
      exact hrest

/-- What a drain comes to behind a window that has taken the row which raises the flag. If the
window still had to skip then, the row behind the skipped ones is the first to stop it. -/
theorem foldSource_window (rows : List Row) (skip : Nat) (take : Option Nat)
    (outputs : List Expression) (items : List Item) (h : session.Awaits k)
    (hk : k ≤ ((foldSource collect rows [.window skip take outputs] items).run session).2.pulled) :
    let run := (foldSource collect rows [.window skip take outputs] items).run session
    if session.pulled + skip < k then run.1.2 = some .cancelled ∧ run.2.pulled = k
    else run.1 = (rows, if skip < items.length then some .cancelled else none) ∧
      run.2.pulled = session.pulled + min (skip + 1) items.length := by
  by_cases htake : take = some 0
  · subst htake
    have hspent : (foldSource collect rows [.window skip (some 0) outputs] items).run session =
        ((rows, none), session) := by cases items <;> rfl
    rw [hspent] at hk
    exact absurd hk (Nat.not_le_of_lt h.before)
  · induction items generalizing skip session with
    | nil => exact absurd hk (Nat.not_le_of_lt h.before)
    | cons item rest ih =>
      cases skip with
      | zero =>
        have halert : ∀ adapter ∈ [Adapter.window 0 take outputs], adapter.IsAlert :=
          List.forall_mem_singleton.mpr trivial
        have hfold := foldSource_heeds quiet_collect rows halert
          (fun rows _ session _ hor => collect_stops (List.cons_ne_nil _ _) hor rows session)
          (item :: rest) h
        dsimp only
        rw [Nat.add_zero, if_pos h.before]
        exact hfold.resolve_left fun hawaits => absurd hk (Nat.not_le_of_lt hawaits.before)
      | succ skip =>
        rw [foldSource_skip collect rows skip htake] at hk ⊢
        simp only [List.length_cons, Nat.add_lt_add_iff_right]
        rw [← (pull_skip session skip rest).1, ← (pull_skip session skip rest).2]
        by_cases hlast : session.pulled + 1 < k
        · exact ih skip (h.pull hlast) hk
        · have hlast : session.pulled + 1 = k := Nat.le_antisymm h.before (Nat.le_of_not_lt hlast)
          rw [if_neg (by rw [Session.pulled_pull]; omega)]
          exact foldSource_window_cancelled rows skip htake outputs rest (h.pull_last hlast)

def reach : List Item → Nat
  | [] => 0
  | .ok _ :: rest => reach rest + 1
  | .error _ :: _ => 1

theorem foldSource_plain (rows : List Row) (items : List Item)
    (h : session.Awaits k ∨ session.cancelled = true) :
    ∃ after, (foldSource collect rows [] items).run session = (gather rows items, after) ∧
      after.pulled = session.pulled + reach items ∧
      (after.Awaits k ∨ after.cancelled = true) := by
  induction items generalizing rows session with
  | nil => exact ⟨session, rfl, rfl, h⟩
  | cons item rest ih =>
    have hpull := Session.pull_awaited h
    rw [foldSource_cons, within_collect]
    cases item with
    | error e => exact ⟨session.pull, rfl, rfl, hpull⟩
    | ok row =>
      obtain ⟨after, hrun, hpulled, hafter⟩ := ih (row :: rows) hpull
      refine ⟨after, hrun, ?_, hafter⟩
      rw [hpulled, Session.pulled_pull, reach]
      omega

end Flow

namespace Sorter

open Run

variable {k : Nat} {session : Session}

theorem quiet_decorate (keys : List Sorter) (rows : List Row) : Quiet (decorate keys rows) := by
  induction rows with
  | nil => exact quiet_pure []
  | cons row rest ih =>
    exact quiet_checkCancelled.bind fun _ => (quiet_ofExcept _).bind fun values =>
      ih.bind fun decorated => quiet_pure _

theorem quiet_sortRows (keys : List Sorter) (rows : List Row) : Quiet (sortRows keys rows) :=
  (quiet_decorate keys rows).bind fun _ => quiet_pure _

theorem sortRows_cancelled (keys : List Sorter) (row : Row) (rest : List Row)
    (h : session.cancelled = true) :
    (sortRows keys (row :: rest)).within session = (.error .cancelled, session) := by
  rw [sortRows, decorate, bind_assoc, Work.within_bind, within_checkCancelled, h]
  rfl

theorem within_sorted {α : Type} (keys : List Sorter) {f : List Row → Run α}
    (hf : ∀ rows, Quiet (f rows)) (items : List Item) (h : session.Awaits k)
    (hk : k ≤ (((Flow.streamed items []).rows >>= fun rows => sortRows keys rows >>= f).within
      session).2.pulled) :
    let run := ((Flow.streamed items []).rows >>= fun rows => sortRows keys rows >>= f).within
      session
    run.1 = (items.mapM id >>= fun _ => .error .cancelled) ∧
      run.2.pulled = session.pulled + Flow.reach items := by
  obtain ⟨after, hrun, hpulled, hafter⟩ := Flow.foldSource_plain [] items (.inl h)
  have hrows : (Flow.streamed items []).rows.within session = (items.mapM id, after) :=
    Flow.rows_gathered hrun
  rw [Work.within_bind, hrows] at hk ⊢
  cases hall : items.mapM id with
  | error e => exact ⟨rfl, hpulled⟩
  | ok rows =>
    rw [hall] at hk
    have hquiet := ((quiet_sortRows keys rows).bind hf) after
    replace hafter := hafter.resolve_left fun hawaits =>
      absurd hk (Nat.not_le_of_lt (hquiet.awaits hawaits).before)
    cases rows with
    | nil =>
      have hnone : items = [] := mapM_id_eq_ok.mp hall
      have hfew : after.pulled < k := by
        rw [hpulled, hnone]
        exact h.before
      exact absurd hk (Nat.not_le_of_lt (hquiet.count ▸ hfew))
    | cons row rest =>
      dsimp only
      rw [Work.within_bind, sortRows_cancelled keys row rest hafter]
      exact ⟨rfl, hpulled⟩

end Sorter

-- ---------------------------------------------------------------------------
-- Stages
-- ---------------------------------------------------------------------------

namespace Action

open Run

variable {k : Nat} {session : Session}

theorem within_sorting {action : Action} {keys : List Sorter}
    {finish : List Row → Except EngineError (List Row)} {items : List Item}
    (haction : action.apply (.streamed items []) = do
      let rows ← Sorter.sortRows keys (← (Flow.streamed items []).rows)
      return .materialized (← Work.ofExcept (finish rows)))
    (h : session.Awaits k)
    (hk : k ≤ ((action.apply (.streamed items []) >>= Flow.rows).within session).2.pulled) :
    let run := (action.apply (.streamed items []) >>= Flow.rows).within session
    run.1 = (items.mapM id >>= fun _ => .error .cancelled) ∧
      run.2.pulled = session.pulled + Flow.reach items := by
  have hquiet (rows : List Row) :
      Quiet (Work.ofExcept (finish rows) >>= fun rows => (Flow.materialized rows).rows) :=
    (quiet_ofExcept _).bind Flow.quiet_rows_materialized
  simp only [haction, bind_assoc, pure_bind] at hk ⊢
  exact Sorter.within_sorted keys hquiet items h hk

theorem within_skipping (outputs : List Expression) (limit : Option Nat) (offset : Nat)
    {items : List Item} (h : session.Awaits k)
    (hk : k ≤ (((topN outputs [] limit offset).apply (.streamed items []) >>= Flow.rows).within
      session).2.pulled) :
    let run := ((topN outputs [] limit offset).apply (.streamed items []) >>= Flow.rows).within
      session
    if session.pulled + offset < k then run.1 = .error .cancelled ∧ run.2.pulled = k
    else run.1 = (if offset < items.length then .error .cancelled else .ok []) ∧
      run.2.pulled = session.pulled + min (offset + 1) items.length := by
  rw [within_window, Flow.rows_within, List.nil_append, Flow.fold] at hk ⊢
  have hwindow := Flow.foldSource_window [] offset limit outputs items h
  rcases hrun : (Flow.foldSource Flow.collect [] [.window offset limit outputs] items).run session
    with ⟨⟨rows, error⟩, after⟩
  rw [hrun] at hwindow hk
  have hafter : k ≤ after.pulled := by cases error <;> exact hk
  specialize hwindow hafter
  by_cases hseen : session.pulled + offset < k
  · rw [if_pos hseen] at hwindow ⊢
    obtain ⟨rfl, hpulled⟩ := hwindow
    exact ⟨rfl, hpulled⟩
  · rw [if_neg hseen] at hwindow ⊢
    obtain ⟨hend, hpulled⟩ := hwindow
    by_cases hmore : offset < items.length
    · rw [if_pos hmore] at hend ⊢
      cases hend
      exact ⟨rfl, hpulled⟩
    · rw [if_neg hmore] at hend ⊢
      cases hend
      exact ⟨rfl, hpulled⟩

end Action

namespace Stage

/-- A stage that may run at this level and over a streamed source whose row `k` raises the flag. If
it takes this row, it ends there with the error of a cancelled run: filters, aggregations, groups
and writes always do. A window without keys does unless the row is one of those it skips; it then
takes the first row behind these, too, and comes to an empty result if there is none. A stage that
sorts takes what is left in its source, and only then ends. -/
theorem cancelled_at_row (stage : Stage) {level : Granularity}
    (hlevel : stage.granularity.id ≤ level.id) {k : Nat} (hk : 1 ≤ k) (items : List Item)
    (sink : Sink) :
    let run := (stage.execute level (.ofBucket (.streamed items)) >>= Flow.rows).within
      ⟨false, 0, some k, sink⟩
    k ≤ run.2.pulled →
      match stage.action with
      | .topN _ [] _ offset =>
        if offset < k then run.1 = .error .cancelled ∧ run.2.pulled = k
        else run.1 = (if offset < items.length then .error .cancelled else .ok []) ∧
          run.2.pulled = min (offset + 1) items.length
      | .topN _ (_ :: _) _ _ | .order .. =>
        run.1 = (items.mapM id >>= fun _ => .error .cancelled) ∧ run.2.pulled = Flow.reach items
      | _ => run.1 = .error .cancelled ∧ run.2.pulled = k := by
  intro run hpulled
  have hstart : Session.Awaits k ⟨false, 0, some k, sink⟩ := ⟨rfl, rfl, hk⟩
  have hrun : run = (stage.action.apply (.streamed items []) >>= Flow.rows).within
      ⟨false, 0, some k, sink⟩ := by
    change (stage.execute level _ >>= _).within _ = _
    rw [Work.within_bind, within_execute hlevel, if_neg (by exact Bool.false_ne_true),
      ← Work.within_bind]
    rfl
  clear_value run
  subst hrun
  rcases stage with ⟨granularity, action⟩
  cases action with
  | filter query outputs => exact (Action.heeds_filter query outputs items).stopped hstart hpulled
  | aggregation aggregators =>
    exact (Action.heeds_aggregation aggregators items).stopped hstart hpulled
  | group keys aggregators =>
    exact (Action.heeds_group keys aggregators items).stopped hstart hpulled
  | write inputs => exact (Action.heeds_write inputs items).stopped hstart hpulled
  | order outputs keys =>
    have hsorted := Action.within_sorting rfl hstart hpulled
    rwa [Nat.zero_add] at hsorted
  | topN outputs keys limit offset =>
    cases keys with
    | cons key keys =>
      have hsorted := Action.within_sorting rfl hstart hpulled
      rwa [Nat.zero_add] at hsorted
    | nil =>
      have hwindow := Action.within_skipping outputs limit offset hstart hpulled
      rwa [Nat.zero_add, Nat.zero_add] at hwindow

theorem cancelled_at_row_second :
    let stage : Stage := ⟨.node, .group [.input 0] []⟩
    let run := (stage.execute .node (.ofBucket (.streamed [.ok [.long 1], .ok [.long 2],
      .ok [.long 3]])) >>= Flow.rows).within ⟨false, 0, some 2, .empty⟩
    stage.granularity.id ≤ Granularity.node.id ∧ 1 ≤ 2 ∧ 2 ≤ run.2.pulled ∧
      run.1 = .error .cancelled ∧ run.2.pulled = 2 := by
  intro stage run
  have hlevel : stage.granularity.id ≤ Granularity.node.id := Nat.le_refl _
  have hpulled : 2 ≤ run.2.pulled := by decide +kernel
  exact ⟨hlevel, by decide, hpulled, cancelled_at_row stage hlevel (by decide) _ .empty hpulled⟩

/-- Three runs that are not stopped by the row that raises the flag. A window skips it and comes to
an empty result, or takes the row behind it. A stage that sorts takes the row behind it. -/
theorem flag_unseen :
    let column : Symbol := .reference 0 .long
    let ends (projection : Projection) (rows : List Row) (taken : Nat)
        (result : Except EngineError (List Row)) : Prop :=
      ∃ stage, Factory.standard.stage projection = .ok stage ∧
        let run := (stage.execute .node (.ofBucket (.streamed (rows.map .ok))) >>=
          Flow.rows).within ⟨false, 0, some 1, .empty⟩
        run.1 = result ∧ run.2.pulled = taken
    ends (.topN [column] [] none 1 .node) [[.long 1]] 1 (.ok []) ∧
    ends (.topN [column] [] none 1 .node) [[.long 1], [.long 2]] 2 (.error .cancelled) ∧
    ends (.order [column] [⟨column, false, none⟩] .node) [[.long 1], [.long 2]] 2
      (.error .cancelled) := by
  intro column ends
  exact ⟨⟨_, rfl, by decide +kernel⟩, ⟨_, rfl, by decide +kernel⟩, ⟨_, rfl, by decide +kernel⟩⟩

end Stage

end ShardQuery
