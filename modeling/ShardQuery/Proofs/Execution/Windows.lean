import ShardQuery.Proofs.Execution.Run
/-!
# Rows left in their source

What comes out of the adapters of a source, as a list, while nobody cancels. A window
takes no more items than it skips and lets through. It skips errors like rows, so an
error among its first items is lost.
-/

namespace ShardQuery

-- ---------------------------------------------------------------------------
-- Slices
-- ---------------------------------------------------------------------------

section Slices

variable {α : Type} {take : Option Nat} {skip : Nat}

def slice (take : Option Nat) (skip : Nat) (items : List α) : List α :=
  let rest := items.drop skip
  take.elim rest rest.take

@[simp] theorem slice_nil : slice take skip ([] : List α) = [] := by
  cases take <;> simp [slice]

theorem slice_cons_zero (h : take ≠ some 0) (item : α) (items : List α) :
    slice take 0 (item :: items) = item :: slice (take.map (· - 1)) 0 items := by
  rcases take with _ | _ | take
  · rfl
  · exact absurd rfl h
  · rfl

theorem slice_map {β : Type} (f : α → β) (items : List α) :
    slice take skip (items.map f) = (slice take skip items).map f := by
  cases take <;> simp [slice, List.map_take, List.map_drop]

end Slices

-- ---------------------------------------------------------------------------
-- Adapters
-- ---------------------------------------------------------------------------

namespace Adapter

def passing : List Adapter → List Item → List Item
  | _, [] => []
  | adapters, item :: rest =>
    if adapters.any isSpent then []
    else
      match passAll false item adapters with
      | (none, others) => passing others rest
      | (some passed, others) => passed :: passing others rest

/-- The items that a filter lets through: rows for which its query holds, and all errors. -/
def filtered (query : Expression) (outputs : List Expression) (items : List Item) : List Item :=
  items.filterMap fun item => ((filter query outputs).pass false item).1

variable {adapters : List Adapter}

@[simp] theorem passing_nil (items : List Item) : passing [] items = items := by
  induction items with
  | nil => rfl
  | cons item rest ih => exact congrArg (item :: ·) ih

theorem passAll_append (cancelled : Bool) (item : Item) (adapters others : List Adapter) :
    passAll cancelled item (adapters ++ others) =
      match passAll cancelled item adapters with
      | (none, next) => (none, next ++ others)
      | (some passed, next) =>
        ((passAll cancelled passed others).1, next ++ (passAll cancelled passed others).2) := by
  induction adapters generalizing item with
  | nil => rfl
  | cons adapter rest ih =>
    rw [List.cons_append, passAll, passAll]
    rcases adapter.pass cancelled item with ⟨_ | passed, next⟩
    · rfl
    · dsimp only
      rw [ih passed]
      rcases passAll cancelled passed rest with ⟨_ | last, others⟩ <;> rfl

theorem passing_append_filter (adapters : List Adapter) (query : Expression)
    (outputs : List Expression) (items : List Item) :
    passing (adapters ++ [.filter query outputs]) items =
      filtered query outputs (passing adapters items) := by
  induction items generalizing adapters with
  | nil => rfl
  | cons item rest ih =>
    have hopen : List.any [filter query outputs] isSpent = false := rfl
    rw [passing, passing, List.any_append, hopen, Bool.or_false]
    cases hspent : adapters.any isSpent with
    | true => rfl
    | false =>
      rw [if_neg Bool.false_ne_true, if_neg Bool.false_ne_true, passAll_append]
      rcases passAll false item adapters with ⟨_ | passed, others⟩
      · exact ih others
      · have hnext : ((filter query outputs).pass false passed).2 = filter query outputs := rfl
        dsimp only [passAll]
        rw [filtered, List.filterMap_cons]
        rcases h : (filter query outputs).pass false passed with ⟨_ | kept, next⟩ <;>
          rw [h] at hnext <;> cases hnext
        · exact ih others
        · exact congrArg (kept :: ·) (ih others)

theorem passing_filter (query : Expression) (outputs : List Expression) (items : List Item) :
    passing [.filter query outputs] items = filtered query outputs items := by
  have hfilter := passing_append_filter [] query outputs items
  rwa [passing_nil] at hfilter

theorem not_isSpent_window {take : Option Nat} (htake : take ≠ some 0) (skip : Nat)
    (outputs : List Expression) : [window skip take outputs].any isSpent = false := by
  rcases take with _ | _ | take
  · rfl
  · exact absurd rfl htake
  · rfl

theorem passing_append_window (adapters : List Adapter) (outputs : List Expression) (skip : Nat)
    (take : Option Nat) (items : List Item) :
    passing (adapters ++ [.window skip take outputs]) items =
      (slice take skip (passing adapters items)).map (· >>= Expression.project outputs) := by
  induction items generalizing adapters skip take with
  | nil => rw [passing, passing, slice_nil, List.map_nil]
  | cons item rest ih =>
    rw [passing, passing, List.any_append]
    cases hspent : adapters.any isSpent with
    | true => simp
    | false =>
      by_cases htake : take = some 0
      · subst htake
        simp [isSpent, slice]
      · rw [not_isSpent_window htake, passAll_append]
        simp only [Bool.or_false, Bool.false_eq_true, ↓reduceIte]
        rcases passAll false item adapters with ⟨_ | passed, others⟩
        · exact ih others skip take
        · cases skip with
          | zero =>
            rw [slice_cons_zero htake, List.map_cons, ← ih others]
            rfl
          | succ skip => exact ih others skip take

end Adapter

-- ---------------------------------------------------------------------------
-- Draining
-- ---------------------------------------------------------------------------

namespace Flow

/-- Draining what nobody cancels takes what comes out of the adapters. -/
theorem foldSource_collect (rows : List Row) (adapters : List Adapter) (items : List Item)
    {session : Session} (hcancelled : session.cancelled = false)
    (hcancelAt : session.cancelAt = none) :
    ∃ pulled, (foldSource collect rows adapters items).run session =
      (gather rows (Adapter.passing adapters items), { session with pulled }) := by
  induction items generalizing rows adapters session with
  | nil => exact ⟨session.pulled, rfl⟩
  | cons item rest ih =>
    rw [Adapter.passing]
    cases hspent : adapters.any Adapter.isSpent with
    | true =>
      rw [foldSource, hspent]
      exact ⟨session.pulled, rfl⟩
    | false =>
      have hpull : session.pull = { session with pulled := session.pulled + 1 } := by
        simp [Session.pull, hcancelled, hcancelAt]
      have hflag : session.pull.cancelled = false := hpull ▸ hcancelled
      rw [foldSource_pull collect rows hspent, hflag, hpull]
      rcases Adapter.passAll false item adapters with ⟨_ | passed, others⟩
      · exact ih rows others hcancelled hcancelAt
      · dsimp only
        rw [within_collect]
        cases passed with
        | error e => exact ⟨session.pulled + 1, rfl⟩
        | ok row => exact ih (row :: rows) others hcancelled hcancelAt

theorem rows_streamed (items : List Item) (adapters : List Adapter) {session : Session}
    (hcancelled : session.cancelled = false) (hcancelAt : session.cancelAt = none) :
    ∃ pulled, (streamed items adapters).rows.within session =
      ((Adapter.passing adapters items).mapM id, { session with pulled }) :=
  (foldSource_collect [] adapters items hcancelled hcancelAt).imp fun _ => rows_gathered

theorem rows_adapt (adapter : Adapter) (items : List Item) (adapters : List Adapter)
    {session : Session} (hcancelled : session.cancelled = false)
    (hcancelAt : session.cancelAt = none) :
    (((pure (adapt adapter items adapters) : Run Flow) >>= rows).within session).1 =
      (Adapter.passing (adapters ++ [adapter]) items).mapM id := by
  obtain ⟨pulled, hrows⟩ := rows_streamed items (adapters ++ [adapter]) hcancelled hcancelAt
  rw [Work.within_bind, Work.within_pure]
  exact congrArg Prod.fst hrows

def items : Flow → List Item
  | materialized rows => rows.map .ok
  | streamed items adapters => Adapter.passing adapters items

theorem items_ofBucket (bucket : Bucket) : (ofBucket bucket).items = bucket.items := by
  cases bucket with
  | materialized rows => rfl
  | streamed items => exact Adapter.passing_nil items

theorem rows_items (flow : Flow) {session : Session} (hcancelled : session.cancelled = false)
    (hcancelAt : session.cancelAt = none) :
    ∃ pulled, flow.rows.within session = (flow.items.mapM id, { session with pulled }) := by
  cases flow with
  | materialized rows =>
    refine ⟨session.pulled, ?_⟩
    rw [rows_materialized, items, mapM_id_eq_ok.mpr rfl]
  | streamed items adapters => exact rows_streamed items adapters hcancelled hcancelAt

/-- No more is taken from a source than the window skips and lets through. -/
theorem pulled_le {α : Type} {step : α → Item → Run α} (hstep : ∀ state item session,
      ((step state item).within session).2.pulled = session.pulled)
    (state : α) (skip take : Nat) (outputs : List Expression) (items : List Item)
    (session : Session) :
    ((foldSource step state [.window skip (some take) outputs] items).run session).2.pulled ≤
      session.pulled + (skip + take) := by
  induction items generalizing state skip take session with
  | nil => exact Nat.le_add_right _ _
  | cons item rest ih =>
    cases take with
    | zero => exact Nat.le_add_right _ _
    | succ take =>
      have hpull : session.pull.pulled = session.pulled + 1 := rfl
      rw [foldSource_pull step state rfl]
      cases skip with
      | succ skip =>
        have hrest := ih state skip (take + 1) session.pull
        dsimp only [Adapter.passAll, Adapter.pass]
        omega
      | zero =>
        dsimp only [Adapter.passAll, Adapter.pass]
        generalize Adapter.unlessCancelled _ item >>= Expression.project outputs = passed
        have hafter := hstep state passed session.pull
        rcases hrun : (step state passed).within session.pull with ⟨e | next, after⟩
        · rw [hrun] at hafter
          dsimp only at hafter ⊢
          omega
        · rw [hrun] at hafter
          have hrest := ih next 0 take after
          simp only [Option.map_some, Nat.add_one_sub_one] at hafter ⊢
          omega

end Flow

namespace Action

-- ---------------------------------------------------------------------------
-- Stages over all rows
-- ---------------------------------------------------------------------------

theorem rows_arranged {action : Action} {input : Flow} {arrange : List Row → Run (List Row)}
    {finish : List Row → Except EngineError (List Row)} {rows : List Row}
    {session after : Session}
    (happly : action.apply input = do
      let rows ← arrange (← input.rows)
      return .materialized (← Work.ofExcept (finish rows)))
    (hinput : input.rows.within session = (.ok rows, after)) :
    ((action.apply input >>= Flow.rows).within session).1 =
      ((arrange rows).within after).1 >>= finish := by
  rw [happly, bind_assoc, Work.within_bind, hinput]
  dsimp only
  rw [bind_assoc, Work.within_bind]
  rcases (arrange rows).within after with ⟨e | arranged, last⟩
  · rfl
  · dsimp only
    rw [bind_assoc, Work.within_bind, Work.within_ofExcept, ok_bind]
    cases finish arranged with
    | error => rfl
    | ok finished => exact congrArg Prod.fst (Flow.rows_materialized finished last)

-- ---------------------------------------------------------------------------
-- Windows without keys
-- ---------------------------------------------------------------------------

theorem within_window (outputs : List Expression) (limit : Option Nat) (offset : Nat)
    (items : List Item) (adapters : List Adapter) (session : Session) :
    ((topN outputs [] limit offset).apply (.streamed items adapters) >>= Flow.rows).within session =
      (Flow.streamed items (adapters ++ [.window offset limit outputs])).rows.within session :=
  Work.within_bind _ _ _

theorem rows_slice (outputs : List Expression) (limit : Option Nat) (offset : Nat) (input : Flow)
    {session : Session} (hcancelled : session.cancelled = false)
    (hcancelAt : session.cancelAt = none) :
    (((topN outputs [] limit offset).apply input >>= Flow.rows).within session).1 =
      (slice limit offset input.items).mapM (· >>= Expression.project outputs) := by
  cases input with
  | materialized rows =>
    have happly : (topN outputs [] limit offset).apply (.materialized rows) = do
        let rows ← pure (← (Flow.materialized rows).rows)
        return .materialized (← Work.ofExcept (window outputs limit offset rows)) := rfl
    rw [rows_arranged happly (Flow.rows_materialized rows session), Flow.items, slice_map,
      List.mapM_map]
    rfl
  | streamed items adapters =>
    refine (Flow.rows_adapt (.window offset limit outputs) items adapters hcancelled
      hcancelAt).trans ?_
    rw [Adapter.passing_append_window, List.mapM_map]
    rfl

theorem rows_window (outputs : List Expression) (limit offset : Nat) (items : List Item)
    (adapters : List Adapter) (sink : Sink) :
    (((topN outputs [] (some limit) offset).apply (.streamed items adapters) >>=
      Flow.rows).within (.start false sink)).1 =
      (((Adapter.passing adapters items).drop offset).take limit).mapM
        (· >>= Expression.project outputs) :=
  rows_slice outputs (some limit) offset (.streamed items adapters) rfl rfl

theorem pulled_window (outputs : List Expression) (limit offset : Nat) (items : List Item)
    (sink : Sink) :
    (((topN outputs [] (some limit) offset).apply (.streamed items []) >>= Flow.rows).within
      (.start false sink)).2.pulled ≤ offset + limit := by
  have hkeep (rows : List Row) (item : Item) (session : Session) :
      ((Flow.collect rows item).within session).2.pulled = session.pulled := by
    rw [Flow.within_collect]
  have hle := Flow.pulled_le hkeep [] offset limit outputs items (.start false sink)
  have hstart : (Session.start false sink).pulled = 0 := rfl
  rw [within_window, Flow.rows_within, List.nil_append, Flow.fold]
  rcases hrun : (Flow.foldSource Flow.collect [] [.window offset (some limit) outputs] items).run
    (.start false sink) with ⟨⟨rows, _ | e⟩, after⟩ <;>
  · rw [hrun] at hle
    dsimp only at hle ⊢
    omega

theorem mapM_error {α β : Type} {f : α → Except EngineError β} {xs : List α} {x : α} (hx : x ∈ xs)
    (h : ∀ y, f x ≠ .ok y) : ∃ e, xs.mapM f = .error e := by
  cases hall : xs.mapM f with
  | error e => exact ⟨e, rfl⟩
  | ok ys =>
    obtain ⟨y, -, hy⟩ := forall₂_mem_left (mapM_eq_ok.mp hall) hx
    exact absurd hy (h y)

/-- Draining a window without keys over a streamed source. The window lets the items behind the
skipped ones through, each projected, and stops at the first error among these; it never takes
more items than it skips and lets through. Skipped items are not looked at: a drain is sure to
fail on an error among the items taken only if none of the skipped ones is the error. The same
holds of what a filter before the window lets through, errors of its query among it. -/
theorem window_drains (outputs : List Expression) (limit offset : Nat) (items : List Item)
    (sink : Sink) :
    let window : Action := .topN outputs [] (some limit) offset
    let drained := (window.apply (.streamed items []) >>= Flow.rows).within (.start false sink)
    drained.1 = ((items.drop offset).take limit).mapM (· >>= Expression.project outputs) ∧
    drained.2.pulled ≤ offset + limit ∧
    ((∀ item ∈ items.take offset, ∃ row, item = .ok row) →
      (∃ e, .error e ∈ items.take (offset + limit)) → ∃ e, drained.1 = .error e) ∧
    ∀ (query : Expression) (kept : List Expression),
      (((filter query kept).apply (.streamed items []) >>= window.apply >>= Flow.rows).within
        (.start false sink)).1 =
        (((Adapter.filtered query kept items).drop offset).take limit).mapM
          (· >>= Expression.project outputs) := by
  intro window drained
  have hrows : drained.1 =
      ((items.drop offset).take limit).mapM (· >>= Expression.project outputs) := by
    rw [← Adapter.passing_nil items]
    exact rows_window outputs limit offset items [] sink
  refine ⟨hrows, pulled_window outputs limit offset items sink, ?_, ?_⟩
  · rintro hskipped ⟨e, he⟩
    rw [List.take_add, List.mem_append] at he
    rcases he with he | he
    · obtain ⟨row, hrow⟩ := hskipped _ he
      cases hrow
    · rw [hrows]
      exact mapM_error he fun row h => nomatch h
  · intro query kept
    rw [← Adapter.passing_filter]
    exact rows_window outputs limit offset items [.filter query kept] sink

theorem window_drains_second :
    let items : List Item := [.ok [.long 1], .error (.execution "boom"), .ok [.long 3]]
    let drained := (((topN [.input 0] [] (some 1) 1).apply (.streamed items []) >>=
      Flow.rows).within (.start false .empty))
    (∀ item ∈ items.take 1, ∃ row, item = .ok row) ∧
      .error (.execution "boom") ∈ items.take (1 + 1) ∧ ∃ e, drained.1 = .error e := by
  intro items drained
  have hskipped : ∀ item ∈ items.take 1, ∃ row, item = .ok row :=
    List.forall_mem_singleton.mpr ⟨_, rfl⟩
  have herror : .error (.execution "boom") ∈ items.take (1 + 1) := .tail _ (.head _)
  exact ⟨hskipped, herror, (window_drains [.input 0] 1 1 items .empty).2.2.1 hskipped ⟨_, herror⟩⟩

/-- An error of the source counts as a skipped row, and so does a row that a filter fails on: here
the query divides by zero. -/
theorem window_skips_errors :
    let window : Action := .topN [.input 0] [] (some 1) 1
    let source : List Item := [.error (.execution "boom"), .ok [.long 2]]
    let divide : ScalarFunction :=
      ⟨⟨⟨"divide", [.long, .long]⟩, .long, .scalar⟩, .arithmetic .divide⟩
    let eq : ScalarFunction := ⟨⟨⟨"eq", [.long, .long]⟩, .boolean, .scalar⟩, .compare .eq⟩
    let query : Expression := .call eq [.call divide [.literal (.long 2), .input 0],
      .literal (.long 1)]
    let session : Session := .start false .empty
    ((window.apply (.streamed source []) >>= Flow.rows).within session).1 = .ok [[.long 2]] ∧
    query.evaluate [.long 0] = .error .divisionByZero ∧
    (((filter query [.input 0]).apply (.streamed [.ok [.long 0], .ok [.long 2]] []) >>=
      window.apply >>= Flow.rows).within session).1 = .ok [[.long 2]] := by
  decide +kernel

end Action

end ShardQuery
