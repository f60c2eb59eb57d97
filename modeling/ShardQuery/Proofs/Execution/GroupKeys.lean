import ShardQuery.Proofs.Execution.Grouping
import ShardQuery.Value.Wire
/-!
# Keys of groups

A row finds the group of its keys by sameness, whatever the types of the keys are. Keys
with a NaN among their numbers are not found again: every row that has such keys makes
a group of its own.
-/

namespace ShardQuery

namespace Action

variable {keys : List Expression} {aggregators : List Aggregator} {rows : List Row}
  {groups next : List Group} {key row : Row} {all seen : List Row}

-- ---------------------------------------------------------------------------
-- Keys seen so far
-- ---------------------------------------------------------------------------

def addKey (seen : List Row) (key : Row) : List Row :=
  if seen.any (Row.same key) then seen else seen ++ [key]

theorem addToGroups_keys (h : addToGroups aggregators key row groups = .ok next) :
    next.map Prod.fst = addKey (groups.map Prod.fst) key := by
  induction groups generalizing next with
  | nil =>
    obtain ⟨states, -, h⟩ := bind_eq_ok.mp h
    cases h
    rfl
  | cons g rest ih =>
    obtain ⟨other, states⟩ := g
    rw [addToGroups] at h
    cases hsame : Row.same key other with
    | true =>
      rw [if_pos hsame] at h
      obtain ⟨after, -, h⟩ := bind_eq_ok.mp h
      cases h
      rw [List.map_cons, List.map_cons, addKey, if_pos]
      rw [List.any_cons, hsame, Bool.true_or]
    | false =>
      rw [if_neg (Bool.eq_false_iff.mp hsame)] at h
      obtain ⟨others, hothers, h⟩ := bind_eq_ok.mp h
      cases h
      rw [List.map_cons, List.map_cons, ih hothers, addKey, addKey, List.any_cons, hsame,
        Bool.false_or]
      split <;> rfl

structure Indexes (all seen : List Row) : Prop where
  inOrder : seen.Sublist all
  distinct : seen.Pairwise fun first second => Row.same second first = false
  finds : ∀ key ∈ all, key.Proper → ∃ k ∈ seen, Row.same key k = true
  /-- A row whose keys are not the same as themselves has a group of its own. -/
  alone : seen.filter (¬ ·.Proper) = all.filter (¬ ·.Proper)

theorem Indexes.step (h : Indexes all seen) (key : Row) :
    Indexes (all ++ [key]) (addKey seen key) := by
  rw [addKey]
  cases hany : seen.any (Row.same key) with
  | true =>
    rw [if_pos rfl]
    obtain ⟨k, hk, hsame⟩ := List.any_eq_true.mp hany
    have hproper : key.Proper := (Row.same_iff_settled.mp hsame).1
    refine ⟨h.inOrder.trans (List.sublist_append_left ..), h.distinct, ?_, ?_⟩
    · intro key' hkey' hproper'
      rcases List.mem_append.mp hkey' with hold | hnew
      · exact h.finds key' hold hproper'
      · exact ⟨k, hk, List.mem_singleton.mp hnew ▸ hsame⟩
    · have hnone : [key].filter (¬ ·.Proper) = [] := by simp [hproper]
      rw [List.filter_append, hnone, List.append_nil, h.alone]
  | false =>
    rw [if_neg Bool.false_ne_true]
    refine ⟨h.inOrder.append (List.Sublist.refl _), ?_, ?_, ?_⟩
    · refine List.pairwise_append.mpr ⟨h.distinct, List.pairwise_singleton .., ?_⟩
      intro k hk key' hkey'
      rw [List.mem_singleton.mp hkey']
      exact Bool.eq_false_iff.mpr (List.any_eq_false.mp hany k hk)
    · intro key' hkey' hproper'
      rcases List.mem_append.mp hkey' with hold | hnew
      · obtain ⟨k, hk, hsame⟩ := h.finds key' hold hproper'
        exact ⟨k, List.mem_append_left _ hk, hsame⟩
      · exact ⟨key', List.mem_append_right _ hnew, Row.same_self.mpr hproper'⟩
    · rw [List.filter_append, List.filter_append, h.alone]

theorem Indexes.run {more : List Row} (h : Indexes all (groups.map Prod.fst))
    (hfold : more.foldlM (addRow keys aggregators) groups = .ok next) :
    ∃ tuples, more.mapM (Expression.project keys) = .ok tuples ∧
      Indexes (all ++ tuples) (next.map Prod.fst) := by
  induction more generalizing all groups with
  | nil =>
    cases hfold
    exact ⟨[], rfl, by rwa [List.append_nil]⟩
  | cons row more ih =>
    rw [List.foldlM_cons] at hfold
    obtain ⟨middle, hmiddle, hfold⟩ := bind_eq_ok.mp hfold
    obtain ⟨key, hkey, hadd⟩ := bind_eq_ok.mp hmiddle
    have hstep := h.step key
    rw [← addToGroups_keys hadd] at hstep
    obtain ⟨tuples, htuples, hnext⟩ := ih hstep hfold
    rw [List.append_assoc, List.singleton_append] at hnext
    exact ⟨key :: tuples, mapM_eq_ok.mpr (.cons hkey (mapM_eq_ok.mp htuples)), hnext⟩

theorem foldlM_addRow_indexes (h : rows.foldlM (addRow keys aggregators) [] = .ok groups) :
    ∃ tuples, rows.mapM (Expression.project keys) = .ok tuples ∧
      Indexes tuples (groups.map Prod.fst) := by
  have hempty : Indexes [] (([] : List Group).map Prod.fst) := ⟨.slnil, .nil, by simp, rfl⟩
  exact hempty.run h

theorem group_indexes {input output : Flow} {session after : Session}
    (h : ((group keys aggregators).apply input).within session = (.ok output, after)) :
    ∃ rows tuples groups out, (input.rows.within session).1 = .ok rows ∧
      rows.mapM (Expression.project keys) = .ok tuples ∧
      Indexes tuples (groups.map Prod.fst) ∧
      output = .materialized out ∧ List.Forall₂ (Emits aggregators) groups out := by
  obtain ⟨rows, groups, out, hrows, hfold, hemits, hout⟩ := apply_group_ok h
  obtain ⟨tuples, htuples, hindexes⟩ := foldlM_addRow_indexes hfold
  exact ⟨rows, tuples, groups, out, hrows, htuples, hindexes, hout, hemits⟩

end Action

-- ---------------------------------------------------------------------------
-- Sameness and the index of groups
-- ---------------------------------------------------------------------------

/-- Sameness is symmetric and transitive. What is the same is hashed alike, and so is nothing else
that is no state. A value is the same as itself if no number of it is a NaN, and nothing else is the
same as it if none is a zero either. An index of groups finds every key again that is the same as
itself, and no other. -/
theorem Value.sameness (a b c : Value) :
    (a.same b = true ↔ a.Proper ∧ b.Proper ∧ a.settled = b.settled) ∧
    (a.same a = true ↔ a.Proper) ∧
    ((∀ v, a.same v = true ↔ a = v) ↔ a.Exact) ∧
    (a.same b = true → b.same a = true) ∧
    (a.same b = true → b.same c = true → a.same c = true) ∧
    (a.same b = true → a.hashed = b.hashed) ∧
    (a.dataType ≠ .aggregationState → a.hashed = b.hashed → a = b) ∧
    (∀ (key : Row) (index : List Row),
      index.find? (fun k => key.hashed == k.hashed && Row.same key k) =
        index.find? (Row.same key)) ∧
    ∀ {keys : List Expression} {aggregators : List Aggregator} {input output : Flow}
      {session after : Session},
      ((Action.group keys aggregators).apply input).within session = (.ok output, after) →
      ∃ rows tuples groups out, (input.rows.within session).1 = .ok rows ∧
        rows.mapM (Expression.project keys) = .ok tuples ∧
        Action.Indexes tuples (groups.map Prod.fst) ∧
        output = .materialized out ∧ List.Forall₂ (Action.Emits aggregators) groups out :=
  ⟨same_iff_settled a b, same_self, same_iff_eq a, same_symm, same_trans, hashed_eq_of_same,
    hashed_injective, Row.find?_hashed, Action.group_indexes⟩

/-- Two rows with the same NaN in an average, and two with zeros of both signs. -/
theorem Value.sameness_averages :
    let average (bits : UInt64) : Value := .state (.average 1 ⟨bits⟩)
    let nan := average 0x7ff8000000000000
    let zero := average 0
    let minusZero := average 0x8000000000000000
    let rows : List Row := [[nan], [zero], [nan], [minusZero]]
    let out : List Row := [[nan], [zero], [nan]]
    let session : Session := .start false .empty
    zero.Proper ∧ minusZero.Proper ∧ zero.settled = minusZero.settled ∧
      ((Action.group [.input 0] []).apply (.materialized rows)).within session =
        (.ok (.materialized out), session) ∧
      Action.Indexes rows out := by
  intro average nan zero minusZero rows out session
  have hrun : ((Action.group [.input 0] []).apply (.materialized rows)).within session =
      (.ok (.materialized out), session) := rfl
  obtain ⟨hsame, -, -, -, -, -, -, -, hgroups⟩ := Value.sameness zero minusZero nan
  obtain ⟨hzero, hminusZero, hsettled⟩ := hsame.mp rfl
  obtain ⟨taken, tuples, groups, made, htaken, htuples, hindexes, hmade, hemits⟩ := hgroups hrun
  cases htaken
  cases htuples
  cases hmade
  have hkeys : groups.map Prod.fst = out := by
    rw [← List.forall₂_eq_eq_eq, List.forall₂_map_left_iff]
    refine hemits.imp ?_
    rintro g row ⟨values, hvalues, rfl⟩
    cases hvalues
    exact (List.append_nil g.1).symm
  exact ⟨hzero, hminusZero, hsettled, hrun, hkeys ▸ hindexes⟩

/-- A state with a NaN that comes off the wire is not the same as itself, and a state with a zero is
the same as another one. -/
theorem Value.same_not_identity :
    let average (bits : UInt64) : PartialState := .average 1 ⟨bits⟩
    let nan := average 0x7ff8000000000000
    let zero := average 0
    let minusZero := average 0x8000000000000000
    (Wire.Reader.start PartialState.read [2, 1, 0, 0, 0, 0, 0, 0, 0xf8, 0x7f]).1 = .ok nan ∧
      (Value.state nan).same (.state nan) = false ∧
      (Value.state zero).same (.state minusZero) = true ∧
      Value.state zero ≠ .state minusZero ∧
      (Value.double ⟨0⟩).same (.double ⟨0x8000000000000000⟩) = false := by
  intro average nan zero minusZero
  refine ⟨rfl, rfl, rfl, ?_, rfl⟩
  simp [average, zero, minusZero]

end ShardQuery
