import ShardQuery.Proofs.Execution.Grouping
/-!
# Rows made of groups

A group stage makes one row for each tuple of keys, in the order in which the tuples
are first seen: the keys, and what every aggregator on its own makes of the rows that
have them.
-/

namespace ShardQuery

namespace Aggregator

variable {a : Aggregator} {aggregators : List Aggregator} {rows : List Row}
  {state : PartialState} {states next : List PartialState}

/-- The first of several aggregators folds the rows as if it were alone, and so do the others. -/
theorem foldlM_accumulateAll_cons
    (h : rows.foldlM (accumulateAll (a :: aggregators)) (state :: states) = .ok next) :
    ∃ last others, next = last :: others ∧ rows.foldlM a.accumulate state = .ok last ∧
      rows.foldlM (accumulateAll aggregators) states = .ok others := by
  induction rows generalizing state states with
  | nil =>
    cases h
    exact ⟨state, states, rfl, rfl, rfl⟩
  | cons row rest ih =>
    rw [List.foldlM_cons] at h
    obtain ⟨middle, hmiddle, h⟩ := bind_eq_ok.mp h
    obtain ⟨first, hfirst, hmiddle⟩ := bind_eq_ok.mp hmiddle
    obtain ⟨more, hmore, hmiddle⟩ := bind_eq_ok.mp hmiddle
    cases hmiddle
    obtain ⟨last, others, hnext, hlast, hothers⟩ := ih h
    refine ⟨last, others, hnext, ?_, ?_⟩
    · rw [List.foldlM_cons, hfirst]
      exact hlast
    · rw [List.foldlM_cons, hmore]
      exact hothers

theorem foldlM_accumulateAll_nil
    (h : rows.foldlM (accumulateAll []) [] = .ok next) : next = [] := by
  induction rows with
  | nil =>
    cases h
    rfl
  | cons row rest ih => exact ih h

theorem accumulate_each
    (h : rows.foldlM (accumulateAll aggregators) (aggregators.map initial) = .ok next) :
    List.Forall₂ (fun a state => rows.foldlM a.accumulate a.initial = .ok state) aggregators
      next := by
  induction aggregators generalizing next with
  | nil =>
    rw [foldlM_accumulateAll_nil h]
    exact .nil
  | cons a aggregators ih =>
    obtain ⟨last, others, rfl, hlast, hothers⟩ := foldlM_accumulateAll_cons h
    exact .cons hlast (ih hothers)

theorem emit_each {p : Aggregator → PartialState → Prop} {values : List Value}
    (hp : List.Forall₂ p aggregators states) (h : emitAll aggregators states = .ok values) :
    List.Forall₂ (fun a value => ∃ state, p a state ∧ a.emit state = .ok value) aggregators
      values := by
  induction hp generalizing values with
  | nil =>
    cases h
    exact .nil
  | cons hstate _ ih =>
    obtain ⟨value, hvalue, h⟩ := bind_eq_ok.mp h
    obtain ⟨others, hothers, h⟩ := bind_eq_ok.mp h
    cases h
    exact .cons ⟨_, hstate, hvalue⟩ (ih hothers)

end Aggregator

namespace Action

variable {keys : List Expression} {aggregators : List Aggregator} {rows : List Row}

def rowsWith (keys : List Expression) (rows : List Row) (key : Row) : List Row :=
  rows.filter fun row => Row.same (keyOf keys row) key

/-- The row is made of the keys and of what each aggregator, starting afresh, makes of all rows that
have them. -/
def Summarizes (keys : List Expression) (aggregators : List Aggregator) (rows : List Row)
    (key made : Row) : Prop :=
  ∃ values, made = key ++ values ∧
    List.Forall₂ (fun a value => ∃ state,
      (rowsWith keys rows key).foldlM a.accumulate a.initial = .ok state ∧
        a.emit state = .ok value) aggregators values

theorem same_keyOf (hkeyed : ∀ row ∈ rows, Keyed keys row)
    (hprojects : ∀ row ∈ rows, Expression.project keys row = .ok (keyOf keys row))
    {row : Row} (hrow : row ∈ rows) (key : Row) :
    Row.same (keyOf keys row) key = true ↔ keyOf keys row = key :=
  Row.same_iff (hkeyed row hrow _ (hprojects row hrow))

theorem Grouped.summarizes {groups : List Group} {out : List Row}
    (h : Grouped keys aggregators rows groups) (hkeyed : ∀ row ∈ rows, Keyed keys row)
    (hemits : List.Forall₂ (Emits aggregators) groups out) :
    List.Forall₂ (Summarizes keys aggregators rows) (groups.map Prod.fst) out := by
  rw [List.forall₂_map_left_iff]
  refine ((List.forall₂_and_left groups out).mpr ⟨h.states, hemits⟩).imp ?_
  rintro ⟨key, states⟩ made ⟨hstates, values, hvalues, rfl⟩
  have hrows : rows.filter (fun row => keyOf keys row == key) = rowsWith keys rows key := by
    refine List.filter_congr fun row hrow => ?_
    rw [Bool.eq_iff_iff, beq_iff_eq, same_keyOf hkeyed h.projects hrow]
  rw [hrows] at hstates
  exact ⟨values, rfl, Aggregator.emit_each (Aggregator.accumulate_each hstates) hvalues⟩

/-- A group stage that succeeds has made one row for each tuple of keys among its rows, in the order
of first occurrences. Tuples are the same only if they are equal, value by value: a null equals only
a null, and numbers with a fraction are equal by their bits. -/
theorem group_summarizes {input output : Flow} {session after : Session}
    (hkeyed : ∀ rows, (input.rows.within session).1 = .ok rows → ∀ row ∈ rows, Keyed keys row)
    (h : ((group keys aggregators).apply input).within session = (.ok output, after)) :
    ∃ rows tuples out, (input.rows.within session).1 = .ok rows ∧
      rows.mapM (Expression.project keys) = .ok tuples ∧
      (∀ key ∈ tuples, ∀ other, Row.same key other = true ↔ key = other) ∧
      output = .materialized out ∧
      List.Forall₂ (Summarizes keys aggregators rows) (tuples.eraseDupsBy Row.same) out := by
  obtain ⟨rows, groups, out, hrows, hfold, hemits, hout⟩ := apply_group_ok h
  specialize hkeyed rows hrows
  have hgrouped := foldlM_addRow hkeyed hfold
  have hsame : ∀ key ∈ rows.map (keyOf keys), ∀ other,
      Row.same key other = true ↔ key = other := by
    intro key hkey other
    obtain ⟨row, hrow, rfl⟩ := List.mem_map.mp hkey
    exact same_keyOf hkeyed hgrouped.projects hrow other
  have hdistinct : (rows.map (keyOf keys)).eraseDupsBy Row.same = groups.map Prod.fst := by
    rw [hgrouped.keys_eq]
    refine eraseDupsBy_eq _ fun key hkey other _ => ?_
    rw [Bool.eq_iff_iff, beq_iff_eq, hsame key hkey]
  refine ⟨rows, rows.map (keyOf keys), out, hrows, mapM_eq_ok.mpr ?_, hsame, hout, ?_⟩
  · rw [List.forall₂_map_right_iff, List.forall₂_same]
    exact hgrouped.projects
  · rw [hdistinct]
    exact hgrouped.summarizes hkeyed hemits

/-- Keys with a null and both zeros, from a source that a filter is still to be applied to: the sum
of a column, and the state of its count, for each of the three. -/
theorem group_summarizes_zeros :
    let zero : Value := .double ⟨0⟩
    let minusZero : Value := .double ⟨0x8000000000000000⟩
    let keys : List Expression := [.input 0]
    let aggregators : List Aggregator :=
      [⟨⟨⟨⟨"sum", [.long]⟩, .long, .aggregate⟩, .sum⟩, [.input 1], .rows, .results⟩,
        ⟨⟨⟨⟨"count", [.long]⟩, .long, .aggregate⟩, .count⟩, [.input 1], .rows, .states⟩]
    let input : Flow := .streamed [.ok [zero, .long 1, .boolean true],
      .ok [.null, .long 2, .boolean true], .ok [zero, .long 9, .null],
      .ok [minusZero, .long 3, .boolean true], .ok [zero, .long 4, .boolean true],
      .ok [.null, .null, .boolean true]] [.filter (.input 2) [.input 0, .input 1]]
    let rows : List Row :=
      [[zero, .long 1], [.null, .long 2], [minusZero, .long 3], [zero, .long 4], [.null, .null]]
    let out : List Row := [[zero, .long 5, .state (.count 2)],
      [.null, .long 2, .state (.count 1)], [minusZero, .long 3, .state (.count 1)]]
    let session : Session := .start false .empty
    (input.rows.within session).1 = .ok rows ∧ (∀ row ∈ rows, Keyed keys row) ∧
      (((group keys aggregators).apply input).within session).1 = .ok (.materialized out) ∧
      List.Forall₂ (Summarizes keys aggregators rows) [[zero], [.null], [minusZero]] out := by
  intro zero minusZero keys aggregators input rows out session
  have hrows : (input.rows.within session).1 = .ok rows := rfl
  have hkeyed : ∀ row ∈ rows, Keyed keys row := by
    simp [rows, Keyed, keys, Expression.project, Expression.evaluateAll, Expression.evaluate,
      Row.Stateless, zero, minusZero, Value.dataType]
  have hrun : (((group keys aggregators).apply input).within session).1 =
      .ok (.materialized out) := rfl
  obtain ⟨taken, tuples, made, htaken, htuples, -, hmade, hall⟩ := group_summarizes
    (fun taken htaken => Except.ok.inj (hrows.symm.trans htaken) ▸ hkeyed) (Prod.ext hrun rfl)
  cases hrows.symm.trans htaken
  cases hmade
  have hprojects : rows.mapM (Expression.project keys) =
    .ok [[zero], [.null], [minusZero], [zero], [.null]] := rfl
  cases hprojects.symm.trans htuples
  exact ⟨hrows, hkeyed, hrun, hall⟩

end Action

end ShardQuery
