import ShardQuery.Proofs.Execution.Sorting
import ShardQuery.Proofs.Execution.Windows
/-!
# Windows of sorted rows

A window with keys sorts its rows like an order projection, and one without keys leaves
them as they came. Either projects only the rows that it keeps, so it may succeed where
projecting all of them does not.
-/

namespace ShardQuery

theorem mapM_slice {α β : Type} {f : α → Except EngineError β} {xs : List α} {ys : List β}
    (h : xs.mapM f = .ok ys) (take : Option Nat) (skip : Nat) :
    (slice take skip xs).mapM f = .ok (slice take skip ys) := by
  have hrest := List.forall₂_drop skip (mapM_eq_ok.mp h)
  refine mapM_eq_ok.mpr ?_
  cases take with
  | none => exact hrest
  | some take => exact List.forall₂_take take hrest

-- ---------------------------------------------------------------------------
-- Sorting without keys
-- ---------------------------------------------------------------------------

namespace Sorter

theorem place_last {α : Type} {isBefore : α → α → Bool} (h : ∀ a b, isBefore a b = false)
    (item : α) (sorted : List α) : place isBefore item sorted = item :: sorted := by
  cases sorted with
  | nil => rfl
  | cons last rest => rw [place, h, if_neg Bool.false_ne_true]

theorem sort_unordered {α : Type} {isBefore : α → α → Bool} (h : ∀ a b, isBefore a b = false)
    (items : List α) : sort isBefore items = items := by
  have hplaced (sorted : List α) :
      items.foldl (fun sorted item => place isBefore item sorted) sorted =
        items.reverse ++ sorted := by
    induction items generalizing sorted with
    | nil => rfl
    | cons item rest ih =>
      rw [List.foldl_cons, ih, place_last h, List.reverse_cons, List.append_assoc]
      rfl
  rw [sort, hplaced, List.append_nil, List.reverse_reverse]

theorem sortRows_keyless (rows : List Row) {session : Session}
    (hcancelled : session.cancelled = false) :
    (sortRows [] rows).within session = (.ok rows, session) := by
  have hkeys : rows.mapM (fun row => ([] : List Sorter).mapM fun key =>
      key.expression.evaluate row) = .ok (rows.map fun _ => []) := by
    rw [mapM_eq_ok, List.forall₂_map_right_iff, List.forall₂_same]
    intro row _
    rfl
  have hunordered (a b : List Value × Row) : (compareAll [] a.1 b.1 == .lt) = false := rfl
  rw [sortRows, Work.within_bind, decorate_keyed hcancelled hkeys]
  dsimp only
  rw [Work.within_pure, sort_unordered hunordered, List.map_snd_zip (by simp)]

end Sorter

-- ---------------------------------------------------------------------------
-- Orders and windows
-- ---------------------------------------------------------------------------

namespace Action

variable {outputs : List Expression} {keys : List Sorter} {input : Flow} {rows : List Row}
  {session after : Session}

theorem rows_order (hinput : input.rows.within session = (.ok rows, after)) :
    (((order outputs keys).apply input >>= Flow.rows).within session).1 =
      ((Sorter.sortRows keys rows).within after).1 >>= (·.mapM (Expression.project outputs)) :=
  rows_arranged rfl hinput

theorem rows_sortedWindow {key : Sorter} {limit : Option Nat} {offset : Nat}
    (hinput : input.rows.within session = (.ok rows, after)) :
    (((topN outputs (key :: keys) limit offset).apply input >>= Flow.rows).within session).1 =
      ((Sorter.sortRows (key :: keys) rows).within after).1 >>= window outputs limit offset := by
  have happly : (topN outputs (key :: keys) limit offset).apply input = do
      let rows ← Sorter.sortRows (key :: keys) (← input.rows)
      return .materialized (← Work.ofExcept (window outputs limit offset rows)) := by
    cases input <;> rfl
  exact rows_arranged happly hinput

/-- A window over an input that does not fail, in a run that nobody cancels. With the keys of an
order projection it comes to a slice of what that comes to; without keys it comes to the same slice
of all rows, each projected, in the order in which they came. -/
theorem topN_slices (outputs : List Expression) (keys : List Sorter) (limit : Option UInt64)
    (offset : UInt64) (input : Flow) (rows : List Row) (session : Session)
    (hinput : input.items = rows.map .ok) (hcancelled : session.cancelled = false)
    (hcancelAt : session.cancelAt = none) :
    let drained (action : Action) := ((action.apply input >>= Flow.rows).within session).1
    let window (keys : List Sorter) : Action :=
      .topN outputs keys (limit.map UInt64.toNat) offset.toNat
    (∀ ordered, drained (.order outputs keys) = .ok ordered →
      drained (window keys) = .ok (slice (limit.map UInt64.toNat) offset.toNat ordered)) ∧
    (∀ projected, rows.mapM (Expression.project outputs) = .ok projected →
      drained (window []) = .ok (slice (limit.map UInt64.toNat) offset.toNat projected)) := by
  intro drained window
  obtain ⟨pulled, hrows⟩ := input.rows_items hcancelled hcancelAt
  rw [hinput, mapM_id_eq_ok.mpr rfl] at hrows
  have hkeyless (projected : List Row)
      (hprojected : rows.mapM (Expression.project outputs) = .ok projected) :
      drained (window []) = .ok (slice (limit.map UInt64.toNat) offset.toNat projected) := by
    have hwindow := rows_slice outputs (limit.map UInt64.toNat) offset.toNat input hcancelled
      hcancelAt
    rw [hinput, slice_map, List.mapM_map] at hwindow
    exact hwindow.trans (mapM_slice hprojected _ _)
  refine ⟨fun ordered hordered => ?_, hkeyless⟩
  obtain ⟨sorted, hsorted, hprojected⟩ := bind_eq_ok.mp ((rows_order hrows).symm.trans hordered)
  cases keys with
  | nil =>
    have hflag : ({ session with pulled } : Session).cancelled = false := hcancelled
    rw [Sorter.sortRows_keyless rows hflag] at hsorted
    cases hsorted
    exact hkeyless ordered hprojected
  | cons key keys =>
    refine (rows_sortedWindow hrows).trans ?_
    rw [hsorted]
    exact mapM_slice hprojected _ _

theorem topN_slices_second :
    let rows : List Row := [[.long 2], [.long 3], [.long 1]]
    let input : Flow := .ofBucket (.streamed (rows.map .ok))
    let falling : Sorter := ⟨.input 0, true, true⟩
    let drained (action : Action) :=
      ((action.apply input >>= Flow.rows).within (.start false .empty)).1
    let window (keys : List Sorter) (limit : UInt64) : Action :=
      .topN [.input 0] keys (some limit.toNat) (1 : UInt64).toNat
    input.items = rows.map .ok ∧
    drained (.order [.input 0] [falling]) = .ok [[.long 3], [.long 2], [.long 1]] ∧
    drained (window [falling] 1) = .ok [[.long 2]] ∧
    rows.mapM (Expression.project [.input 0]) = .ok rows ∧
    drained (window [] 18446744073709551615) = .ok [[.long 3], [.long 1]] := by
  intro rows input falling drained window
  have hinput : input.items = rows.map .ok := Flow.items_ofBucket (.streamed (rows.map .ok))
  have hordered : drained (.order [.input 0] [falling]) =
      .ok [[.long 3], [.long 2], [.long 1]] := by decide +kernel
  have hprojected : rows.mapM (Expression.project [.input 0]) = .ok rows := by decide +kernel
  have hsorted := topN_slices [.input 0] [falling] (some 1) 1 input rows (.start false .empty)
    hinput rfl rfl
  have hkeyless := topN_slices [.input 0] [] (some 18446744073709551615) 1 input rows
    (.start false .empty) hinput rfl rfl
  exact ⟨hinput, hordered, hsorted.1 _ hordered, hprojected, hkeyless.2 _ hprojected⟩

end Action

end ShardQuery
