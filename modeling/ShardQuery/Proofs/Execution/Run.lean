import ShardQuery.Execution.Chain
import ShardQuery.Proofs.Except
import ShardQuery.Proofs.Work
/-!
# Runs of stages

How a run comes apart into its steps, and what a stage that takes every row has
seen when it succeeds.
-/

namespace ShardQuery

namespace Bucket

theorem rows_eq_items (bucket : Bucket) : bucket.rows = bucket.items.mapM id := by
  cases bucket with
  | materialized rows =>
    symm
    refine mapM_eq_ok.mpr ?_
    rw [items, List.forall₂_map_left_iff, List.forall₂_same]
    intro row _
    rfl
  | streamed items => rfl

theorem rows_concat {buckets : List Bucket} {rowss : List (List Row)}
    (h : List.Forall₂ (fun bucket rows => bucket.rows = .ok rows) buckets rowss) :
    (concat buckets).rows = .ok rowss.flatten := by
  rw [rows_eq_items, items_concat]
  induction h with
  | nil => rfl
  | @cons bucket rows buckets rowss hrows _ ih =>
    rw [rows_eq_items] at hrows
    rw [List.flatMap_cons, List.mapM_append, hrows, ih]
    rfl

theorem mem_concat {buckets : List Bucket} {rows : List Row} {row : Row}
    (h : (concat buckets).rows = .ok rows) (hrow : row ∈ rows) :
    ∃ bucket ∈ buckets, ∃ own, bucket.rows = .ok own ∧ row ∈ own := by
  rw [rows_eq_items, items_concat] at h
  induction buckets generalizing rows with
  | nil =>
    cases h
    cases hrow
  | cons bucket buckets ih =>
    rw [List.flatMap_cons, List.mapM_append] at h
    obtain ⟨own, hown, h⟩ := bind_eq_ok.mp h
    obtain ⟨others, hothers, h⟩ := bind_eq_ok.mp h
    cases h
    rcases List.mem_append.mp hrow with hrow | hrow
    · rw [← rows_eq_items] at hown
      exact ⟨bucket, List.mem_cons_self, own, hown, hrow⟩
    · obtain ⟨b, hb, hrows⟩ := ih hothers hrow
      exact ⟨b, List.mem_cons_of_mem _ hb, hrows⟩

theorem rows_concat_materialized (rowss : List (List Row)) :
    (concat (rowss.map materialized)).rows = .ok rowss.flatten := by
  refine rows_concat ?_
  rw [List.forall₂_map_left_iff, List.forall₂_same]
  intro rows _
  rfl

end Bucket

theorem Run.within_checkCancelled (session : Session) :
    Run.checkCancelled.within session =
      (if session.cancelled then .error .cancelled else .ok (), session) := by
  rw [Run.checkCancelled, Work.within_bind, Work.within_get]
  dsimp only
  split <;> rfl

namespace Flow

variable {α β : Type}

theorem run_bind_within (x : Run α) (next : Except EngineError α → StateM Session β)
    (session : Session) :
    (x.run >>= next).run session = (next (x.within session).1).run (x.within session).2 := rfl

theorem foldRows_cons (step : α → Item → Run α) (state : α) (row : Row) (rest : List Row)
    (session : Session) :
    (foldRows step state (row :: rest)).run session =
      match (step state (.ok row)).within session with
      | (.ok next, after) => (foldRows step next rest).run after
      | (.error e, after) => ((state, some e), after) := by
  rw [foldRows, run_bind_within]
  rcases (step state (.ok row)).within session with ⟨e | next, after⟩ <;> rfl

theorem foldSource_pull (step : α → Item → Run α) (state : α) {adapters : List Adapter}
    (hspent : adapters.any Adapter.isSpent = false) (item : Item) (rest : List Item)
    (session : Session) :
    (foldSource step state adapters (item :: rest)).run session =
      match Adapter.passAll session.pull.cancelled item adapters with
      | (none, others) => (foldSource step state others rest).run session.pull
      | (some passed, others) =>
        match (step state passed).within session.pull with
        | (.ok next, after) => (foldSource step next others rest).run after
        | (.error e, after) => ((state, some e), after) := by
  rw [foldSource, hspent]
  simp only [Bool.false_eq_true, ↓reduceIte, StateT.run_bind, StateT.run_modify, StateT.run_get,
    pure_bind]
  rcases Adapter.passAll session.pull.cancelled item adapters with ⟨_ | passed, others⟩
  · rfl
  · dsimp only
    rw [run_bind_within]
    rcases (step state passed).within session.pull with ⟨e | next, after⟩ <;> rfl

theorem foldSource_cons (step : α → Item → Run α) (state : α) (item : Item) (rest : List Item)
    (session : Session) :
    (foldSource step state [] (item :: rest)).run session =
      match (step state item).within session.pull with
      | (.ok next, after) => (foldSource step next [] rest).run after
      | (.error e, after) => ((state, some e), after) :=
  foldSource_pull step state rfl item rest session

-- ---------------------------------------------------------------------------
-- Taking all rows of a flow
-- ---------------------------------------------------------------------------

def collect (rows : List Row) (item : Item) : Run (List Row) :=
  return (← Work.ofExcept item) :: rows

theorem within_collect (rows : List Row) (item : Item) (session : Session) :
    (collect rows item).within session = (item.map (· :: rows), session) := by
  cases item <;> rfl

theorem rows_within (flow : Flow) (session : Session) :
    flow.rows.within session =
      match (flow.fold collect []).run session with
      | ((rows, none), after) => (.ok rows.reverse, after)
      | ((_, some e), after) => (.error e, after) := by
  rcases h : (flow.fold collect []).run session with ⟨⟨rows, error⟩, after⟩
  have hdrain : (drain flow).run session = ((rows.reverse, error), after) := by
    change StateT.run (flow.fold collect [] >>= _) session = _
    rw [StateT.run_bind, h]
    rfl
  rw [Flow.rows, Work.within_bind, Work.within_lift, hdrain]
  cases error <;> rfl

theorem rows_ok {flow : Flow} {rows : List Row} {session after : Session}
    (h : flow.rows.within session = (.ok rows, after)) :
    (flow.fold collect []).run session = ((rows.reverse, none), after) := by
  rw [rows_within] at h
  rcases hfold : (flow.fold collect []).run session with ⟨⟨taken, _ | e⟩, last⟩ <;>
    rw [hfold] at h <;> cases h
  rw [List.reverse_reverse]

/-- What a drain has when it ends: the rows before the first error, from the last to the first, and
that error. -/
def gather (rows : List Row) : List Item → List Row × Option EngineError
  | [] => (rows, none)
  | .ok row :: rest => gather (row :: rows) rest
  | .error e :: _ => (rows, some e)

theorem gather_ok {items : List Item} {more : List Row} (h : items.mapM id = .ok more)
    (rows : List Row) : gather rows items = (more.reverse ++ rows, none) := by
  rw [mapM_id_eq_ok.mp h]
  clear h
  induction more generalizing rows with
  | nil => rfl
  | cons row more ih =>
    rw [List.map_cons, gather, ih, List.reverse_cons, List.append_assoc]
    rfl

theorem gather_error {items : List Item} {e : EngineError} (h : items.mapM id = .error e)
    (rows : List Row) : (gather rows items).2 = some e := by
  induction items generalizing rows with
  | nil => cases h
  | cons item rest ih =>
    cases item with
    | error => exact congrArg some (Except.error.inj h)
    | ok row =>
      refine ih ?_ (row :: rows)
      rw [List.mapM_cons] at h
      cases hrest : rest.mapM id with
      | error =>
        rw [hrest] at h
        exact h
      | ok =>
        rw [hrest] at h
        cases h

theorem rows_gathered {flow : Flow} {items : List Item} {session after : Session}
    (h : (flow.fold collect []).run session = (gather [] items, after)) :
    flow.rows.within session = (items.mapM id, after) := by
  rw [rows_within, h]
  cases hrows : items.mapM id with
  | ok rows =>
    rw [gather_ok hrows, List.append_nil]
    dsimp only
    rw [List.reverse_reverse]
  | error e =>
    have hgather := gather_error hrows []
    rcases hall : gather [] items with ⟨rows, error⟩
    rw [hall] at hgather
    cases hgather
    rfl

theorem foldRows_collect (taken rows : List Row) (session : Session) :
    (foldRows collect taken rows).run session = (gather taken (rows.map .ok), session) := by
  induction rows generalizing taken with
  | nil => rfl
  | cons row rest ih =>
    rw [foldRows_cons, within_collect]
    exact ih (row :: taken)

theorem rows_materialized (rows : List Row) (session : Session) :
    (materialized rows).rows.within session = (.ok rows, session) := by
  have hrows : (materialized rows).rows.within session = ((rows.map .ok).mapM id, session) :=
    rows_gathered (foldRows_collect [] rows session)
  rw [hrows, mapM_id_eq_ok.mpr rfl]

theorem rows_ofBucket (bucket : Bucket) (session : Session) :
    ((ofBucket bucket).rows.within session).1 = bucket.rows := by
  cases bucket with
  | materialized rows => exact congrArg Prod.fst (rows_materialized rows session)
  | streamed items =>
    have hrun (taken : List Row) (session : Session) :
        ∃ after, (foldSource collect taken [] items).run session = (gather taken items, after) := by
      induction items generalizing taken session with
      | nil => exact ⟨session, rfl⟩
      | cons item rest ih =>
        rw [foldSource_cons, within_collect]
        cases item with
        | error e => exact ⟨session.pull, rfl⟩
        | ok row => exact ih (row :: taken) session.pull
    obtain ⟨after, hafter⟩ := hrun [] session
    have hrows : (streamed items []).rows.within session = (items.mapM id, after) :=
      rows_gathered hafter
    exact congrArg Prod.fst hrows

def guarded (work : α → Row → Run α) (state : α) (item : Item) : Run α := do
  Run.checkCancelled
  work state (← Work.ofExcept item)

theorem guarded_cancelled (work : α → Row → Run α) (state : α) (item : Item)
    {session : Session} (h : session.cancelled = true) :
    (guarded work state item).within session = (.error .cancelled, session) := by
  rw [guarded, Work.within_bind, Run.within_checkCancelled, h]
  rfl

theorem guarded_ok {work : α → Row → Run α} {state next : α} {item : Item}
    {session after : Session} (h : (guarded work state item).within session = (.ok next, after)) :
    ∃ row, item = .ok row ∧ (work state row).within session = (.ok next, after) := by
  obtain ⟨_, u, hcheck, h⟩ := Work.bind_within_ok.mp h
  obtain ⟨row, v, hrow, h⟩ := Work.bind_within_ok.mp h
  rw [Run.within_checkCancelled] at hcheck
  cases congrArg Prod.snd hcheck
  cases hrow
  exact ⟨row, rfl, h⟩

theorem consume_within (work : α → Row → Run α) (start : α) (flow : Flow) (session : Session) :
    (flow.consume work start).within session =
      match (flow.fold (guarded work) start).run session with
      | ((result, none), after) => (.ok result, after)
      | ((_, some e), after) => (.error e, after) := by
  change (liftM (flow.fold (guarded work) start) >>= _ : Run α).within session = _
  rw [Work.within_bind, Work.within_lift]
  rcases (flow.fold (guarded work) start).run session with ⟨⟨result, _ | e⟩, after⟩ <;> rfl

theorem consume_ok {work : α → Row → Run α} {start result : α} {flow : Flow}
    {session after : Session} (h : (flow.consume work start).within session = (.ok result, after)) :
    (flow.fold (guarded work) start).run session = ((result, none), after) := by
  rw [consume_within] at h
  rcases hfold : (flow.fold (guarded work) start).run session with ⟨⟨taken, _ | e⟩, last⟩ <;>
    rw [hfold] at h <;> cases h
  rfl

-- ---------------------------------------------------------------------------
-- Stages that take every row
-- ---------------------------------------------------------------------------

variable {work : α → Row → Except EngineError α} {start result : α} {session after : Session}

def checked (work : α → Row → Except EngineError α) (state : α) (item : Item) : Run α := do
  Run.checkCancelled
  Work.ofExcept (work state (← Work.ofExcept item))

theorem checked_ok {state : α} {item : Item}
    (h : (checked work state item).within session = (.ok result, after)) :
    ∃ row, item = .ok row ∧ work state row = .ok result ∧ after = session := by
  have hchecked : checked work = guarded fun state row => Work.ofExcept (work state row) := rfl
  rw [hchecked] at h
  obtain ⟨row, hrow, hwork⟩ := guarded_ok h
  exact ⟨row, hrow, congrArg Prod.fst hwork, (congrArg Prod.snd hwork).symm⟩

theorem foldRows_ok {rows : List Row}
    (h : (foldRows (checked work) start rows).run session = ((result, none), after)) :
    rows.foldlM work start = .ok result ∧ after = session := by
  induction rows generalizing start with
  | nil =>
    cases h
    exact ⟨rfl, rfl⟩
  | cons row rest ih =>
    rw [foldRows_cons] at h
    split at h
    · rename_i next middle hstep
      obtain ⟨_, hrow, hwork, rfl⟩ := checked_ok hstep
      cases hrow
      rw [List.foldlM_cons, hwork]
      exact ih h
    · cases h

theorem consume_materialized (work : α → Row → Except EngineError α) (start : α) (rows : List Row)
    (hcancelled : session.cancelled = false) :
    ((materialized rows).consume (fun state row => Work.ofExcept (work state row)) start).within
      session = (rows.foldlM work start, session) := by
  rw [consume_within, fold]
  induction rows generalizing start with
  | nil => rfl
  | cons row rest ih =>
    have hrow : (guarded (fun state row => Work.ofExcept (work state row)) start (.ok row)).within
        session = (work start row, session) := by
      rw [guarded, Work.within_bind, Run.within_checkCancelled, hcancelled]
      rfl
    rw [foldRows_cons, hrow, List.foldlM_cons]
    cases work start row with
    | error => rfl
    | ok next => exact ih next

/-- Work that succeeds on what comes out of a source leaves the source as a drain leaves it, and has
seen the same rows. -/
theorem foldSource_ok {adapters : List Adapter} {items : List Item}
    (h : (foldSource (checked work) start adapters items).run session = ((result, none), after)) :
    ∃ rows : List Row, (∀ taken, (foldSource collect taken adapters items).run session =
      ((rows.reverse ++ taken, none), after)) ∧ rows.foldlM work start = .ok result := by
  induction items generalizing start adapters session with
  | nil =>
    cases h
    exact ⟨[], fun _ => rfl, rfl⟩
  | cons item rest ih =>
    cases hspent : adapters.any Adapter.isSpent with
    | true =>
      rw [foldSource, hspent] at h
      cases h
      refine ⟨[], fun taken => ?_, rfl⟩
      rw [foldSource, hspent]
      rfl
    | false =>
      rw [foldSource_pull _ _ hspent] at h
      simp only [foldSource_pull collect _ hspent]
      rcases hpass : Adapter.passAll session.pull.cancelled item adapters with
        ⟨_ | passed, others⟩ <;> rw [hpass] at h
      · exact ih h
      · dsimp only at h ⊢
        split at h
        · rename_i next middle hstep
          obtain ⟨row, rfl, hwork, rfl⟩ := checked_ok hstep
          obtain ⟨rows, hrows, hfold⟩ := ih h
          refine ⟨row :: rows, fun taken => ?_, ?_⟩
          · rw [within_collect, List.reverse_cons, List.append_assoc]
            exact hrows (row :: taken)
          · rw [List.foldlM_cons, hwork]
            exact hfold
        · cases h

/-- A stage that succeeds has seen all rows that a drain comes to, in their order. -/
theorem consume_rows {flow : Flow}
    (h : (flow.consume (fun state row => Work.ofExcept (work state row)) start).within session =
      (.ok result, after)) :
    ∃ rows, flow.rows.within session = (.ok rows, after) ∧ rows.foldlM work start = .ok result := by
  cases flow with
  | materialized rows =>
    obtain ⟨hfold, rfl⟩ := foldRows_ok (consume_ok h)
    exact ⟨rows, rows_materialized rows _, hfold⟩
  | streamed items adapters =>
    obtain ⟨rows, hrows, hfold⟩ := foldSource_ok (consume_ok h)
    refine ⟨rows, ?_, hfold⟩
    rw [rows_within, fold, hrows [], List.append_nil]
    dsimp only
    rw [List.reverse_reverse]

end Flow

-- ---------------------------------------------------------------------------
-- Stages
-- ---------------------------------------------------------------------------

namespace Action

def arrange (keys : List Sorter) (rows : List Row) : Run (List Row) :=
  if keys.isEmpty then pure rows else Sorter.sortRows keys rows

def cut (outputs : List Expression) (keys : List Sorter) (limit : Option Nat) (offset : Nat)
    (input : Flow) : Run Flow := do
  let rows ← arrange keys (← input.rows)
  return .materialized (← Work.ofExcept (window outputs limit offset rows))

theorem apply_topN {outputs : List Expression} {keys : List Sorter} {limit : Option Nat}
    {offset : Nat} {input : Flow} (h : keys ≠ [] ∨ input.isStreamed = false) :
    (topN outputs keys limit offset).apply input = cut outputs keys limit offset input := by
  cases keys with
  | cons => rfl
  | nil =>
    cases input with
    | materialized => rfl
    | streamed => simp [Flow.isStreamed] at h

/-- A window needs all rows at once, or it is added to those that a source passes. -/
theorem apply_topN_cases (outputs : List Expression) (keys : List Sorter) (limit : Option Nat)
    (offset : Nat) (input : Flow) :
    (topN outputs keys limit offset).apply input = cut outputs keys limit offset input ∨
      ∃ items adapters, input = .streamed items adapters ∧
        (topN outputs keys limit offset).apply input =
          pure (.streamed items (adapters ++ [.window offset limit outputs])) := by
  cases keys with
  | cons key keys => exact .inl (apply_topN (.inl (List.cons_ne_nil key keys)))
  | nil =>
    cases input with
    | materialized => exact .inl (apply_topN (.inr rfl))
    | streamed items adapters => exact .inr ⟨items, adapters, rfl, rfl⟩

end Action

theorem Stage.within_execute {stage : Stage} {level : Granularity}
    (hlevel : stage.granularity.id ≤ level.id) (input : Flow) (session : Session) :
    (stage.execute level input).within session =
      if session.cancelled then (.error .cancelled, session)
      else (stage.action.apply input).within session := by
  rw [execute, if_neg (Nat.not_lt_of_le hlevel)]
  dsimp only
  rw [Work.within_bind, Run.within_checkCancelled]
  cases session.cancelled <;> rfl

theorem Stage.within_execute_below {stage : Stage} {level : Granularity}
    (hlevel : level.id < stage.granularity.id) (input : Flow) (session : Session) :
    (stage.execute level input).within session =
      (.error (.granularityViolation stage.action.kind stage.granularity level), session) := by
  rw [execute, if_pos hlevel]
  rfl

def Chain.runFrom (chain : Chain) (level : Granularity) (input : Flow) : Run Flow :=
  chain.stages.foldlM (fun flow stage => stage.execute level flow) input

end ShardQuery
