import ShardQuery.Proofs.Execution.Windows
/-!
# Filters

A filter over rows at hand decides on one row after the other before the next stage starts,
and one over a source decides on a row when it is taken. Drained, both come to the same
rows, or to the error of the same row.
-/

namespace ShardQuery

theorem Value.exists_boolean {v : Value} (h : v.dataType = .boolean) : ∃ b, v = .boolean b := by
  cases v <;> first
    | exact ⟨_, rfl⟩
    | cases h

namespace Adapter

variable {query : Expression} {outputs : List Expression} {row : Row} {e : EngineError}

-- ---------------------------------------------------------------------------
-- One row
-- ---------------------------------------------------------------------------

/-- Why a row ends a run: its query fails, or comes to neither a truth value nor null, or holds
while one of the outputs fails. -/
inductive Fails (query : Expression) (outputs : List Expression) (row : Row) :
    EngineError → Prop
  | query {e : EngineError} : query.evaluate row = .error e → Fails query outputs row e
  | type {v : Value} : query.evaluate row = .ok v → v ≠ .null → v.dataType ≠ .boolean →
      Fails query outputs row (.execution s!"filter query must be boolean, got {v.dataType}")
  | outputs {e : EngineError} : query.evaluate row = .ok (.boolean true) →
      Expression.project outputs row = .error e → Fails query outputs row e

theorem Fails.select (h : Fails query outputs row e) : select query outputs row = .error e := by
  cases h with
  | query h => rw [Adapter.select, h, error_bind]
  | type h hnull htype =>
    rw [Adapter.select, h, ok_bind]
    split
    · exact absurd rfl htype
    · exact absurd rfl htype
    · exact absurd rfl hnull
    · rfl
  | outputs h houtputs =>
    rw [Adapter.select, h, ok_bind]
    dsimp only
    rw [houtputs, error_bind]

theorem select_of_not_fails (h : ∀ e, ¬ Fails query outputs row e) :
    (query.evaluate row = .ok (.boolean true) ∧ ∃ out, Expression.project outputs row = .ok out ∧
      select query outputs row = .ok (some out)) ∨
    (query.evaluate row ≠ .ok (.boolean true) ∧ select query outputs row = .ok none) := by
  cases hquery : query.evaluate row with
  | error e => exact absurd (.query hquery) (h e)
  | ok v =>
    rw [select, hquery, ok_bind]
    split
    · cases houtputs : Expression.project outputs row with
      | error e => exact absurd (.outputs hquery houtputs) (h e)
      | ok out => exact .inl ⟨rfl, out, rfl, rfl⟩
    · exact .inr ⟨by simp, rfl⟩
    · exact .inr ⟨by simp, rfl⟩
    · rename_i htrue hfalse hnull
      refine absurd (.type hquery hnull fun htype => ?_) (h _)
      obtain ⟨_ | _, rfl⟩ := Value.exists_boolean htype
      · exact hfalse rfl
      · exact htrue rfl

-- ---------------------------------------------------------------------------
-- Rows one after the other
-- ---------------------------------------------------------------------------

theorem filtered_cons (query : Expression) (outputs : List Expression) (row : Row)
    (items : List Item) :
    filtered query outputs (.ok row :: items) =
      match select query outputs row with
      | .ok (some out) => .ok out :: filtered query outputs items
      | .ok none => filtered query outputs items
      | .error e => .error e :: filtered query outputs items := by
  have hpass : ((filter query outputs).pass false (.ok row)).1 =
      match select query outputs row with
      | .ok (some out) => some (.ok out)
      | .ok none => none
      | .error e => some (.error e) := rfl
  rw [filtered, List.filterMap_cons, hpass]
  rcases select query outputs row with e | _ | out <;> rfl

theorem filtered_append (query : Expression) (outputs : List Expression) (items more : List Item) :
    filtered query outputs (items ++ more) =
      filtered query outputs items ++ filtered query outputs more :=
  List.filterMap_append

theorem filtered_rows {rows : List Row} (h : ∀ row ∈ rows, ∀ e, ¬ Fails query outputs row e) :
    ∃ kept, (rows.filter fun row => query.evaluate row = .ok (.boolean true)).mapM
        (Expression.project outputs) = .ok kept ∧
      (filtered query outputs (rows.map .ok)).mapM id = .ok kept := by
  induction rows with
  | nil => exact ⟨[], rfl, rfl⟩
  | cons row rest ih =>
    obtain ⟨hrow, hrest⟩ := List.forall_mem_cons.mp h
    obtain ⟨kept, hkept, hfiltered⟩ := ih hrest
    rw [List.map_cons, filtered_cons]
    rcases select_of_not_fails hrow with ⟨hholds, out, hout, hselect⟩ | ⟨hholds, hselect⟩
    · refine ⟨out :: kept, ?_, ?_⟩
      · rw [List.filter_cons_of_pos (by simpa using hholds), List.mapM_cons, hout, hkept]
        rfl
      · rw [hselect]
        dsimp only
        rw [List.mapM_cons, hfiltered]
        rfl
    · refine ⟨kept, ?_, ?_⟩
      · rw [List.filter_cons_of_neg (by simpa using hholds), hkept]
      · rw [hselect]
        exact hfiltered

theorem filtered_fails {before after : List Row}
    (hbefore : ∀ row ∈ before, ∀ e, ¬ Fails query outputs row e) (h : Fails query outputs row e) :
    (filtered query outputs ((before ++ row :: after).map .ok)).mapM id = .error e := by
  obtain ⟨kept, -, hkept⟩ := filtered_rows hbefore
  rw [List.map_append, filtered_append, List.mapM_append, hkept, List.map_cons, filtered_cons,
    h.select]
  rfl

theorem filtered_source (query : Expression) (outputs : List Expression) (items more : List Item)
    (e : EngineError) :
    (filtered query outputs (items ++ .error e :: more)).mapM id =
      (filtered query outputs items).mapM id >>= fun _ => .error e := by
  rw [filtered_append, List.mapM_append]
  rfl

end Adapter

-- ---------------------------------------------------------------------------
-- Both ways
-- ---------------------------------------------------------------------------

namespace Action

open Adapter (Fails filtered filtered_cons)

def keep (query : Expression) (outputs : List Expression) (kept : List Row) (row : Row) :
    Except EngineError (List Row) :=
  (Adapter.select query outputs row).map fun out => out.elim kept (· :: kept)

theorem foldlM_keep (query : Expression) (outputs : List Expression) (kept rows : List Row) :
    (rows.foldlM (keep query outputs) kept).map List.reverse =
      ((filtered query outputs (rows.map .ok)).mapM id).map (kept.reverse ++ ·) := by
  induction rows generalizing kept with
  | nil => exact congrArg Except.ok (List.append_nil _).symm
  | cons row rest ih =>
    rw [List.foldlM_cons, keep, List.map_cons, filtered_cons]
    rcases Adapter.select query outputs row with e | _ | out
    · rfl
    · exact ih kept
    · change (rest.foldlM (keep query outputs) (out :: kept)).map List.reverse =
        ((.ok out :: filtered query outputs (rest.map .ok)).mapM id).map (kept.reverse ++ ·)
      rw [ih (out :: kept), List.mapM_cons]
      cases (filtered query outputs (rest.map .ok)).mapM id with
      | error => rfl
      | ok others => simp [Except.map]

theorem apply_filter (query : Expression) (outputs : List Expression) (rows : List Row) :
    (filter query outputs).apply (.materialized rows) = (do
      let kept ← (Flow.materialized rows).consume
        (fun kept row => Work.ofExcept (keep query outputs kept row)) []
      return .materialized kept.reverse) := by
  dsimp only [apply]
  congr 2
  funext kept row
  rw [keep]
  rcases Adapter.select query outputs row with e | _ | out <;> rfl

/-- The rows that a filter keeps of what comes out of its input, at hand or not. -/
theorem rows_filter (query : Expression) (outputs : List Expression) (input : Flow)
    {session : Session} (hcancelled : session.cancelled = false)
    (hcancelAt : session.cancelAt = none) :
    (((filter query outputs).apply input >>= Flow.rows).within session).1 =
      (filtered query outputs input.items).mapM id := by
  cases input with
  | materialized rows =>
    have hkept : (rows.foldlM (keep query outputs) []).map List.reverse =
        (filtered query outputs (rows.map .ok)).mapM id := by
      rw [foldlM_keep]
      cases (filtered query outputs (rows.map .ok)).mapM id <;> rfl
    rw [apply_filter, bind_assoc, Work.within_bind,
      Flow.consume_materialized (keep query outputs) [] rows hcancelled, Flow.items, ← hkept]
    cases rows.foldlM (keep query outputs) [] with
    | error => rfl
    | ok kept => exact congrArg Prod.fst (Flow.rows_materialized kept.reverse session)
  | streamed items adapters =>
    refine (Flow.rows_adapt (.filter query outputs) items adapters hcancelled hcancelAt).trans ?_
    rw [Adapter.passing_append_filter]
    rfl

/-- A filter in a run that nobody cancels. Rows left in their source come to what rows at hand come
to. If no row fails, these are the outputs of the rows for which the query holds, in their order;
otherwise it is the error of the first row that fails. A source that fails itself comes to its own
error, unless one of the rows before it fails. -/
theorem filter_agrees (query : Expression) (outputs : List Expression) (rows : List Row)
    (session : Session) (hcancelled : session.cancelled = false)
    (hcancelAt : session.cancelAt = none) :
    let drained (input : Flow) :=
      (((filter query outputs).apply input >>= Flow.rows).within session).1
    (∀ input : Flow, input.items = rows.map .ok →
      drained input = drained (.materialized rows)) ∧
    ((∀ row ∈ rows, ∀ e, ¬ Fails query outputs row e) →
      ∃ kept, (rows.filter fun row => query.evaluate row = .ok (.boolean true)).mapM
          (Expression.project outputs) = .ok kept ∧
        drained (.materialized rows) = .ok kept) ∧
    (∀ before row after e, rows = before ++ row :: after →
      (∀ row ∈ before, ∀ e, ¬ Fails query outputs row e) → Fails query outputs row e →
      drained (.materialized rows) = .error e) ∧
    (∀ (input : Flow) (e : EngineError) (more : List Item),
      input.items = rows.map .ok ++ .error e :: more →
      drained input = drained (.materialized rows) >>= fun _ => .error e) := by
  intro drained
  have hdrained (input : Flow) : drained input = (filtered query outputs input.items).mapM id :=
    rows_filter query outputs input hcancelled hcancelAt
  have hrows : drained (.materialized rows) = (filtered query outputs (rows.map .ok)).mapM id :=
    hdrained (.materialized rows)
  refine ⟨?_, ?_, ?_, ?_⟩
  · intro input hinput
    rw [hrows, hdrained, hinput]
  · intro hgood
    rw [hrows]
    exact Adapter.filtered_rows hgood
  · rintro before row after e rfl hbefore hfails
    rw [hrows]
    exact Adapter.filtered_fails hbefore hfails
  · intro input e more hinput
    rw [hrows, hdrained, hinput]
    exact Adapter.filtered_source query outputs (rows.map .ok) more e

theorem filter_agrees_kinds :
    let query : Expression := .input 0
    let outputs : List Expression := [.input 1]
    let good : List Row :=
      [[.boolean true, .long 1], [.null, .long 2], [.boolean false, .long 3]]
    let bad : Row := [.long 4, .long 4]
    let drained (input : Flow) :=
      (((filter query outputs).apply input >>= Flow.rows).within (.start false .empty)).1
    (∀ row ∈ good, ∀ e, ¬ Fails query outputs row e) ∧
    Fails query outputs bad (.execution "filter query must be boolean, got long") ∧
    drained (.ofBucket (.streamed (good.map .ok))) = drained (.materialized good) ∧
    [([.boolean true, .long 1] : Row)].mapM (Expression.project outputs) = .ok [[.long 1]] ∧
    drained (.materialized good) = .ok [[.long 1]] ∧
    drained (.materialized (good ++ [bad])) =
      .error (.execution "filter query must be boolean, got long") ∧
    drained (.ofBucket (.streamed (good.map .ok ++ [.error .cancelled]))) =
      drained (.materialized good) >>= fun _ => .error .cancelled := by
  intro query outputs good bad drained
  have hgood : ∀ row ∈ good, ∀ e, ¬ Fails query outputs row e := by
    intro row hrow e hfails
    have hselect := hfails.select
    simp only [good, List.mem_cons, List.not_mem_nil, or_false] at hrow
    rcases hrow with rfl | rfl | rfl <;> cases hselect
  have hquery : query.evaluate bad = .ok (.long 4) := rfl
  have hbad : Fails query outputs bad (.execution "filter query must be boolean, got long") :=
    .type hquery Value.noConfusion (by decide)
  have hall := filter_agrees query outputs good (.start false .empty) rfl rfl
  have hlast := filter_agrees query outputs (good ++ [bad]) (.start false .empty) rfl rfl
  have hkeeps : [([.boolean true, .long 1] : Row)].mapM (Expression.project outputs) =
      .ok [[.long 1]] := rfl
  obtain ⟨kept, hkept, hdrained⟩ := hall.2.1 hgood
  cases hkeeps.symm.trans hkept
  exact ⟨hgood, hbad, hall.1 _ (Flow.items_ofBucket _), hkeeps, hdrained,
    hlast.2.2.1 good bad [] _ rfl hgood hbad, hall.2.2.2 _ _ [] (Flow.items_ofBucket _)⟩

end Action

end ShardQuery
