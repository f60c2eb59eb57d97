import ShardQuery.Proofs.Aggregate.Typing
import ShardQuery.Proofs.Symbol.Wire
/-!
# States on the wire

Every state can be written, but readers refuse a minimum or maximum that holds a state.
Aggregates do not check their arguments, so a minimum or maximum comes to such a state
exactly if it takes in one: nothing has an order with a state, so it is then the only
value that is not null.
-/

namespace ShardQuery

namespace AggregateFunction

/-- The aggregate can come to the state from these values, one for each call. Arguments may be
anything, and only the first one of a call is looked at. -/
inductive Reaches (f : AggregateFunction) : List Value → PartialState → Prop
  | initial : Reaches f [] f.initial
  | iterate {xs s t arguments} : Reaches f xs s → f.iterate s arguments = .ok t →
      Reaches f (xs ++ [arguments.headD .null]) t
  | merge {xs ys s t u} : Reaches f xs s → Reaches f ys t → f.merge s t = .ok u →
      Reaches f (xs ++ ys) u

variable {f : AggregateFunction} {isMax : Bool} {xs : List Value} {v w kept : Value}
  {s t : PartialState}

theorem Reaches.snoc (h : f.Reaches xs s) (ht : f.iterate s [v] = .ok t) :
    f.Reaches (xs ++ [v]) t :=
  .iterate h ht

-- ---------------------------------------------------------------------------
-- Minima and maxima
-- ---------------------------------------------------------------------------

theorem compare?_of_state (h : v.dataType = .aggregationState ∨ w.dataType = .aggregationState) :
    v.compare? w = none := by
  cases v <;> cases w <;> first | rfl | exact absurd h (by simp [Value.dataType])

theorem keepExtreme_state (h : keepExtreme isMax v w = .ok kept) :
    kept.dataType = .aggregationState ↔
      v.dataType = .aggregationState ∨ w.dataType = .aggregationState := by
  have hnull : DataType.undefined ≠ .aggregationState := by decide
  have hkept := keepExtreme_or h
  unfold keepExtreme at h
  split at h
  · rename_i hw
    cases h
    rw [Value.isNull_iff.mp hw, Value.dataType, or_iff_left hnull]
  · split at h
    · rename_i hv
      cases h
      rw [Value.isNull_iff.mp hv, Value.dataType, or_iff_right hnull]
    · have hplain : ¬ (v.dataType = .aggregationState ∨ w.dataType = .aggregationState) := by
        intro hstate
        rw [compare?_of_state hstate.symm] at h
        cases h
      refine iff_of_false (fun hstate => hplain ?_) hplain
      rcases hkept with rfl | rfl
      · exact .inl hstate
      · exact .inr hstate

/-- What a minimum or maximum holds is a state exactly if one of its values was. -/
theorem Reaches.of_extreme (h : f.Reaches xs s) (hf : f.summary = .extreme isMax) :
    ∃ v, s = .extreme isMax v ∧
      (v.dataType = .aggregationState ↔ ∃ x ∈ xs, x.dataType = .aggregationState) := by
  induction h with
  | initial =>
    refine ⟨.null, ?_, by simp [Value.dataType]⟩
    simp only [AggregateFunction.initial, hf]
  | @iterate xs s t arguments _ hstep ih =>
    obtain ⟨v, rfl, hv⟩ := ih
    have hkept : ∃ kept, t = .extreme isMax kept ∧
        keepExtreme isMax v (arguments.headD .null) = .ok kept := by
      simp only [AggregateFunction.iterate, hf, ne_eq, not_true_eq_false, ↓reduceIte,
        Halt.ofExcept_eq_ok] at hstep
      split at hstep
      · -- a call without arguments counts as one for null
        rename_i hempty
        cases hstep
        rw [List.isEmpty_iff.mp hempty]
        exact ⟨v, rfl, rfl⟩
      · obtain ⟨kept, hkept, rfl⟩ := map_eq_ok.mp hstep
        exact ⟨kept, rfl, hkept⟩
    obtain ⟨kept, rfl, hkept⟩ := hkept
    refine ⟨kept, rfl, ?_⟩
    rw [keepExtreme_state hkept, hv]
    simp [or_and_right, exists_or]
  | @merge xs ys s t u _ _ hstep ihs iht =>
    obtain ⟨v, rfl, hv⟩ := ihs
    obtain ⟨w, rfl, hw⟩ := iht
    cases merges_of_ok hstep with
    | extreme _ hkept =>
      refine ⟨_, rfl, ?_⟩
      rw [keepExtreme_state hkept, hv, hw]
      simp [or_and_right, exists_or]

-- ---------------------------------------------------------------------------
-- Other aggregates
-- ---------------------------------------------------------------------------

theorem initial_isFlat (f : AggregateFunction) : f.initial.IsFlat := by
  unfold AggregateFunction.initial
  split
  case h_2 => split <;> trivial
  case h_4 => exact DataType.noConfusion
  all_goals trivial

theorem iterate_isFlat {arguments : List Value} (hf : ∀ isMax, f.summary ≠ .extreme isMax)
    (hs : s.IsFlat) (h : f.iterate s arguments = .ok t) : t.IsFlat := by
  simp only [AggregateFunction.iterate] at h
  split at h
  case h_2 =>
    rw [Halt.ofExcept_eq_ok] at h
    by_cases hnull : (arguments.headD .null).isNull = true
    · rw [if_pos hnull] at h
      cases h
      exact hs
    · rw [if_neg hnull] at h
      split at h
      · split at h
        · obtain ⟨sum, -, rfl⟩ := map_eq_ok.mp h
          trivial
        · cases h
      · split at h
        · cases h
          trivial
        · cases h
      · cases h
  case h_4 isMax _ _ hsummary => exact absurd hsummary (hf isMax)
  case h_7 => cases h
  -- what is left either adds a count or keeps the state
  all_goals
    split at h
    · obtain ⟨_, -, rfl⟩ := map_eq_ok.mp h
      trivial
    · cases h
      trivial

theorem Reaches.isFlat (h : f.Reaches xs s) (hf : ∀ isMax, f.summary ≠ .extreme isMax) :
    s.IsFlat := by
  induction h with
  | initial => exact f.initial_isFlat
  | iterate _ hstep ih => exact iterate_isFlat hf ih hstep
  | merge _ _ hstep ihs iht =>
    cases merges_of_ok hstep with
    | extreme hsummary => exact absurd hsummary (hf _)
    | _ => trivial

theorem Reaches.isFlat_iff (h : f.Reaches xs s) : s.IsFlat ↔
    ∀ isMax, f.summary = .extreme isMax → ∀ v ∈ xs, v.dataType ≠ .aggregationState := by
  by_cases hf : ∃ isMax, f.summary = .extreme isMax
  · obtain ⟨isMax, hf⟩ := hf
    obtain ⟨v, rfl, hv⟩ := h.of_extreme hf
    simp only [PartialState.IsFlat, hf, ne_eq, hv, not_exists, not_and]
    exact ⟨fun hall _ _ => hall, fun hall => hall isMax rfl⟩
  · rw [not_exists] at hf
    exact iff_of_true (h.isFlat hf) fun isMax hsummary => absurd hsummary (hf isMax)

end AggregateFunction

/-- Every state can be written. One that is flat survives it, and any other one is refused when its
bytes are read. The states of aggregates are flat, those of minima and maxima of states apart: these
aggregates take a state as their first value, though they were not found for states. -/
theorem states_survive_iff (s : PartialState) :
    (s.IsFlat → RoundTrips s.write PartialState.read s) ∧
    (¬ s.IsFlat → ∃ bytes, s.write.toExcept = .ok bytes ∧ (bytes.length < 2 ^ 64 →
      ∀ rest, ∃ reason cursor, PartialState.read.start (bytes ++ rest) =
        (.error (.serialization reason), cursor))) ∧
    ∀ (f : AggregateFunction) values, f.Reaches values s → (s.IsFlat ↔
      ∀ isMax, f.summary = .extreme isMax → ∀ v ∈ values, v.dataType ≠ .aggregationState) := by
  refine ⟨fun hflat => ?_, fun hflat => ?_, fun f values h => h.isFlat_iff⟩
  · exact .of_spells (s.write_restores.congr (iff_true_intro hflat))
  · obtain ⟨bytes, hwrite, hbytes⟩ := s.write_restores
    refine ⟨bytes, by rw [hwrite]; rfl, fun hlen rest => ?_⟩
    obtain ⟨_, cursor, hread, reason, rfl⟩ := (hbytes hlen).refuses hflat (.start bytes rest)
    exact ⟨reason, cursor, hread⟩

theorem states_survive_iff_longs :
    let s : PartialState := .extreme true (.long 7)
    ∃ f, Registry.builtin.resolveAggregate ⟨"max", [.long]⟩ = .ok f ∧
      f.Reaches ([.null, .long 5] ++ [.long 7]) s ∧ s.IsFlat ∧
      RoundTrips s.write PartialState.read s := by
  intro s
  refine ⟨_, Registry.resolveAggregate_max (t := .long) rfl, ?_⟩
  have hreaches : AggregateFunction.Reaches
      ⟨⟨⟨"max", [.long]⟩, .long, .aggregate⟩, .extreme true⟩ ([.null, .long 5] ++ [.long 7]) s :=
    .merge (.snoc (.snoc .initial rfl) rfl) (.snoc .initial rfl) rfl
  obtain ⟨hsurvives, -, hflat⟩ := states_survive_iff s
  have hlongs := (hflat _ _ hreaches).mpr fun _ _ => by decide
  exact ⟨hreaches, hlongs, hsurvives hlongs⟩

/-- The greatest long of a column is a state, if the column holds one; this is written, and then
refused. -/
theorem nested_state_refused :
    let s : PartialState := .extreme true (.state (.count 5))
    ∃ f, Registry.builtin.resolveAggregate ⟨"max", [.long]⟩ = .ok f ∧
      f.iterate f.initial [.state (.count 5)] = .ok s ∧
      s.write.toExcept = .ok [3, 1, 10, 1, 0, 5] ∧
      (PartialState.read.start [3, 1, 10, 1, 0, 5]).1 =
        .error (.serialization "min/max state cannot hold a nested state") := by
  intro s
  exact ⟨_, Registry.resolveAggregate_max (t := .long) rfl, rfl, by decide +kernel, rfl⟩

end ShardQuery
