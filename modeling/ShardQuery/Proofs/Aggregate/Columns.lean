import Mathlib.Data.List.Induction
import ShardQuery.Execution.Aggregator
import ShardQuery.Proofs.Aggregate.Typing
import ShardQuery.Value.Wire
/-!
# Columns of states

States that come from elsewhere do not say which aggregate made them. Merging refuses all
states of another kind, a sum of the other type among them, so the result has the declared
type. Only minimum and maximum do not look at the type of the first value that they take:
they return whatever one of the states held.
-/

namespace ShardQuery.AggregateFunction

variable {f : AggregateFunction} {states : List PartialState} {s t u : PartialState}

def overColumn (f : AggregateFunction) : Aggregator := ⟨f, [.input 0], .states, .results⟩

def mergeAll (f : AggregateFunction) (states : List PartialState) :
    Except EngineError PartialState :=
  (states.map fun s => [.state s]).foldlM f.overColumn.accumulate f.overColumn.initial

theorem mergeAll_eq :
    f.mergeAll states = states.foldlM (fun s t => Halt.reported (f.merge s t)) f.initial := by
  rw [mergeAll, List.foldlM_map]
  rfl

theorem mergeAll_nil : f.mergeAll [] = .ok f.initial := rfl

theorem mergeAll_snoc :
    f.mergeAll (states ++ [s]) =
      f.mergeAll states >>= fun merged => Halt.reported (f.merge merged s) := by
  simp only [mergeAll_eq, List.foldlM_append, List.foldlM_cons, List.foldlM_nil, bind_pure]

-- ---------------------------------------------------------------------------
-- Whole columns
-- ---------------------------------------------------------------------------

/-- The run of a column: every state is of the right kind, and a minimum or maximum is null or one
of the states. -/
theorem mergeAll_kindred (hf : f.WellTyped) (h : f.mergeAll states = .ok u) :
    (∀ s ∈ states, f.Kindred s) ∧ f.Kindred u ∧
      ∀ isMax, f.summary = .extreme isMax → u = .extreme isMax .null ∨ u ∈ states := by
  induction states using List.reverseRecOn generalizing u with
  | nil =>
    rw [mergeAll_nil] at h
    cases h
    refine ⟨List.forall_mem_nil _, .initial hf.of_sum, fun isMax hs => .inl ?_⟩
    simp only [initial, hs]
  | append_singleton states t ih =>
    rw [mergeAll_snoc] at h
    obtain ⟨s, hs, h⟩ := bind_eq_ok.mp h
    rw [Halt.reported_eq_ok] at h
    obtain ⟨hstates, hkindred, horigin⟩ := ih hs
    obtain ⟨ht, hu⟩ := hkindred.merge h
    refine ⟨List.forall_mem_append.mpr ⟨hstates, List.forall_mem_singleton.mpr ht⟩, hu, ?_⟩
    intro isMax hsummary
    rcases merge_extreme_or hsummary h with rfl | rfl
    · exact (horigin isMax hsummary).imp_right (List.mem_append_left _)
    · exact .inr (List.mem_append_right _ List.mem_cons_self)

/-- Null, a value of the declared type, or the error of a count that is no long. -/
def Declares (f : AggregateFunction) (outcome : Except EngineError Value) : Prop :=
  (∃ v, outcome = .ok v ∧ v.fits f.info.returnType = true) ∨
    f.summary = .count ∧ outcome = .error (.execution "count exceeds the long range")

theorem Kindred.finalize (hs : f.Kindred s) :
    (∃ v, f.finalize s = .ok v) ∨
      f.summary = .count ∧ f.finalize s = .error (.execution "count exceeds the long range") := by
  unfold AggregateFunction.finalize
  -- the bounds of longs are hidden, as the kernel would count up to them in these cases
  obtain ⟨narrow, hnarrow⟩ : ∃ narrow, narrow = toLong? := ⟨toLong?, rfl⟩
  rw [← hnarrow]
  cases hs with
  | count hf =>
    simp only [hf, true_and]
    split
    · exact .inl ⟨_, rfl⟩
    · exact .inr rfl
  | sumLong hf _ =>
    simp only [hf]
    exact .inl ⟨_, rfl⟩
  | sumDouble hf _ =>
    simp only [hf]
    exact .inl ⟨_, rfl⟩
  | average hf =>
    simp only [hf]
    exact .inl ⟨_, rfl⟩
  | extreme hf =>
    simp only [hf]
    exact .inl ⟨_, rfl⟩
  | variance hf =>
    rcases hf with hf | hf
    · simp only [hf]
      exact .inl ⟨_, rfl⟩
    · simp only [hf]
      exact .inl ⟨_, rfl⟩

theorem Kindred.declares (hf : f.WellTyped) (hs : f.Kindred s) (hmatches : f.Matches s) :
    f.Declares (f.finalize s) := by
  rcases hs.finalize with ⟨v, hv⟩ | hcount
  · exact .inl ⟨v, hv, Keeps.finalize hf ⟨hs, hmatches⟩ hv⟩
  · exact .inr hcount

theorem mergeAll_singleton {isMax : Bool} {v : Value} (hf : f.summary = .extreme isMax) :
    f.mergeAll [.extreme isMax v] = .ok (.extreme isMax v) := by
  rw [← List.nil_append [_], mergeAll_snoc, mergeAll_nil, ok_bind]
  simp only [initial, merge, hf, ne_eq, not_true_eq_false, or_self, ↓reduceIte,
    Halt.reported_ofExcept]
  cases v <;> rfl

/-- The result of a column is declared, or it is what one of the states holds. -/
theorem mergeAll_result (hf : f.WellTyped) (h : f.mergeAll states = .ok s) :
    f.Declares (f.finalize s) ∨ ∃ isMax v, f.summary = .extreme isMax ∧
      .extreme isMax v ∈ states ∧ f.finalize s = .ok v := by
  obtain ⟨-, hs, horigin⟩ := mergeAll_kindred hf h
  by_cases hextreme : ∃ isMax v, s = .extreme isMax v
  · obtain ⟨isMax, v, rfl⟩ := hextreme
    have hsummary := hs.of_extreme
    rcases horigin isMax hsummary with hnull | hmem
    · obtain rfl := (PartialState.extreme.inj hnull).2
      exact .inl (.inl ⟨.null, finalize_extreme hsummary, rfl⟩)
    · exact .inr ⟨isMax, v, hsummary, hmem, finalize_extreme hsummary⟩
  · exact .inl (hs.declares hf fun isMax v _ hv => absurd ⟨isMax, v, hv⟩ hextreme)

/-- If the states of a column are merged at all, then all of them are of the right kind. The result
is declared, or it is what one of the states holds as a minimum or maximum. It is declared for every
choice from the states exactly if the minima and maxima among them hold values of the declared
type. -/
theorem columns_declared_iff {signature : Signature}
    (h : Registry.builtin.resolveAggregate signature = .ok f) (states : List PartialState) :
    (∀ s, f.mergeAll states = .ok s →
      (∀ t ∈ states, f.Kindred t) ∧
        (f.Declares (f.overColumn.emit s) ∨ ∃ isMax v, f.summary = .extreme isMax ∧
          .extreme isMax v ∈ states ∧ f.overColumn.emit s = .ok v)) ∧
    ((∀ chosen s, chosen ⊆ states → f.mergeAll chosen = .ok s →
        f.Declares (f.overColumn.emit s)) ↔
      ∀ isMax v, f.summary = .extreme isMax → .extreme isMax v ∈ states →
        v.fits f.info.returnType = true) := by
  obtain ⟨summary, hresolve⟩ := Registry.resolveAggregate_builtin h
  obtain ⟨hf, -⟩ := resolve_wellTyped hresolve
  have hemit (s : PartialState) : f.overColumn.emit s = f.finalize s := rfl
  simp only [hemit]
  refine ⟨fun s hs => ⟨(mergeAll_kindred hf hs).1, mergeAll_result hf hs⟩, ?_, ?_⟩
  · intro hdeclares isMax v hsummary hmem
    have hone : [PartialState.extreme isMax v] ⊆ states :=
      List.cons_subset.mpr ⟨hmem, List.nil_subset _⟩
    rcases hdeclares _ _ hone (mergeAll_singleton hsummary) with ⟨w, hw, hfits⟩ | ⟨hcount, -⟩
    · rw [finalize_extreme hsummary] at hw
      rwa [Except.ok.inj hw]
    · cases hsummary.symm.trans hcount
  · intro hfits chosen s hchosen hs
    rcases mergeAll_result hf hs with hdeclares | ⟨isMax, v, hsummary, hmem, hv⟩
    · exact hdeclares
    · exact .inl ⟨v, hv, hfits isMax v hsummary (hchosen hmem)⟩

theorem columns_declared_iff_longs :
    let states : List PartialState := [.extreme true (.long 5), .extreme true .null]
    ∃ f, Registry.builtin.resolveAggregate ⟨"max", [.long]⟩ = .ok f ∧
      ∀ chosen s, chosen ⊆ states → f.mergeAll chosen = .ok s →
        f.Declares (f.overColumn.emit s) := by
  intro states
  have hresolve := Registry.resolveAggregate_max (t := .long) rfl
  refine ⟨_, hresolve, (columns_declared_iff hresolve states).2.mpr fun isMax v _ hmem => ?_⟩
  simp only [states, List.mem_cons, PartialState.extreme.injEq, List.not_mem_nil, or_false] at hmem
  rcases hmem with ⟨-, rfl⟩ | ⟨-, rfl⟩
  · rfl
  · rfl

/-- The greatest long of a column is a text, if a state that was read holds one, and a double, if
the double is greater than the longs. -/
theorem column_of_other_types :
    let text : PartialState := .extreme true (.string "x")
    let double : PartialState := .extreme true (.double ⟨0x4024000000000000⟩)
    ∃ f, Registry.builtin.resolveAggregate ⟨"max", [.long]⟩ = .ok f ∧
      (Wire.Reader.start PartialState.read [3, 1, 8, 1, 1, 120]).1 = .ok text ∧
      f.mergeAll [text] = .ok text ∧ f.overColumn.emit text = .ok (.string "x") ∧
      f.mergeAll [.extreme true (.long 5), double] = .ok double ∧
      ¬ f.Declares (f.overColumn.emit text) ∧ ¬ f.Declares (f.overColumn.emit double) := by
  intro text double
  refine ⟨_, Registry.resolveAggregate_max (t := .long) rfl, rfl, rfl, rfl, rfl, ?_, ?_⟩
  · rintro (⟨v, hv, hfits⟩ | ⟨hcount, -⟩)
    · cases hv
      cases hfits
    · cases hcount
  · rintro (⟨v, hv, hfits⟩ | ⟨hcount, -⟩)
    · cases hv
      cases hfits
    · cases hcount

end ShardQuery.AggregateFunction
