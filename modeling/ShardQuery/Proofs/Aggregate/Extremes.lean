import ShardQuery.Proofs.Aggregate.MergeTree
import ShardQuery.Proofs.Value.Wire
import ShardQuery.Proofs.Wire.Restoring
/-!
# Minima and maxima along trees

The values of a type have a strict order, NaNs of singles apart, so among values there
is at most one least and one greatest. Minima and maxima find it along every tree, and
no state on the way is changed by being written and read.
-/

namespace ShardQuery

-- ---------------------------------------------------------------------------
-- The preferred place
-- ---------------------------------------------------------------------------

namespace AggregateFunction

variable {isMax : Bool}

section Places

variable {α : Type} [LinearOrder α] {a b p q : α} {view : Value → Option α} {xs : List Value}
  {v : Value}

theorem prefer_or (isMax : Bool) (a b : α) : prefer isMax a b = a ∨ prefer isMax a b = b := by
  cases isMax
  · exact min_choice a b
  · exact max_choice a b

theorem exists_of_total (h : total (prefer isMax) view xs = some p) :
    ∃ v ∈ xs, view v = some p := by
  induction xs generalizing p with
  | nil => cases h
  | cons v xs ih =>
    have hrest (hp : total (prefer isMax) view xs = some p) : ∃ w ∈ v :: xs, view w = some p := by
      obtain ⟨w, hw, hview⟩ := ih hp
      exact ⟨w, List.mem_cons_of_mem _ hw, hview⟩
    rw [total_cons] at h
    cases hv : view v with
    | none => exact hrest (by rwa [hv, Option.merge_none_left] at h)
    | some q =>
      cases hr : total (prefer isMax) view xs with
      | none =>
        rw [hv, hr, Option.merge_none_right] at h
        exact ⟨v, List.mem_cons_self, hv.trans h⟩
      | some r =>
        rw [hv, hr, Option.merge_some_some, Option.some.injEq] at h
        rcases prefer_or isMax q r with hq | hq
        · exact ⟨v, List.mem_cons_self, by rw [hv, ← h, hq]⟩
        · exact hrest (by rw [hr, ← h, hq])

theorem prefer_of_total (h : total (prefer isMax) view xs = some p) (hv : v ∈ xs)
    (hq : view v = some q) : prefer isMax p q = p := by
  obtain ⟨before, after, rfl⟩ := List.append_of_mem hv
  rw [total_perm List.perm_middle, total_cons, hq] at h
  cases hr : total (prefer isMax) view (before ++ after) with
  | none =>
    rw [hr, Option.merge_none_right, Option.some.injEq] at h
    rw [h]
    exact (prefer_or isMax p p).elim id id
  | some r =>
    rw [hr, Option.merge_some_some, Option.some.injEq] at h
    rw [← h]
    cases isMax
    · exact min_eq_left (min_le_left q r)
    · exact max_eq_left (le_max_left q r)

theorem compare_of_prefer (h : prefer isMax p q = p) (hne : q ≠ p) :
    compare p q = if isMax then .gt else .lt := by
  cases isMax
  · exact compare_lt_iff_lt.mpr (lt_of_le_of_ne (min_eq_left_iff.mp h) hne.symm)
  · exact compare_gt_iff_gt.mpr (lt_of_le_of_ne (max_eq_left_iff.mp h) hne)

end Places

-- ---------------------------------------------------------------------------
-- Extremes
-- ---------------------------------------------------------------------------

/-- Null if there is no other value, and else the value that every different one lies beyond: above
the minimum, below the maximum. -/
inductive IsExtreme (isMax : Bool) (values : List Value) : Value → Prop
  | null : (∀ v ∈ values, v = .null) → IsExtreme isMax values .null
  | value {v : Value} : v ∈ values → v ≠ .null →
      (∀ w ∈ values, w ≠ .null → w ≠ v → v.compare? w = some (if isMax then .gt else .lt)) →
      IsExtreme isMax values v

variable {f : AggregateFunction} {t : DataType} {xs : List Value} {s : PartialState}

theorem bounded_extreme (h : resolve (.extreme isMax) [t] = .ok f) (e : EngineError) :
    f.Bounded (Value.Plain t) (fun _ => True) e := by
  obtain ⟨hf, htypes, hc⟩ := resolve_extreme h
  refine ⟨.ok trivial (Exact.initial ⟨_, _, h, .inr (.inr ⟨isMax, rfl⟩)⟩), ?_, ?_⟩
  · intro xs s arguments hs hv
    have hadmits : f.Admits (arguments.headD .null) := by simpa [Admits, htypes] using hv
    refine .of_ok ?_ fun u hu => hs.iterate hadmits (Halt.reported_eq_ok.mp hu)
    obtain ⟨current, rfl, hcurrent, -⟩ := hs.of_extreme hf htypes
    obtain ⟨kept, hkept, -⟩ := keepExtreme_eq isMax hc hcurrent hv
    simp only [iterate, hf, hkept, ne_eq, not_true_eq_false, ↓reduceIte, Except.map,
      Halt.reported_ofExcept]
    split
    · exact ⟨_, rfl⟩
    · exact ⟨_, rfl⟩
  · intro xs ys s u hs hu
    refine .of_ok ?_ fun _ hm => hs.merge hu (Halt.reported_eq_ok.mp hm)
    obtain ⟨v, rfl, hv, -⟩ := hs.of_extreme hf htypes
    obtain ⟨w, rfl, hw, -⟩ := hu.of_extreme hf htypes
    obtain ⟨kept, hkept, -⟩ := keepExtreme_eq isMax hc hv hw
    simp only [merge, hf, hkept, ne_eq, not_true_eq_false, or_self, ↓reduceIte,
      Halt.reported_ofExcept]
    exact ⟨_, rfl⟩

theorem place?_eq {v : Value} (h : v ≠ .null) : v.place? = some v.place :=
  if_neg (Value.isNull_iff.not.mpr h)

theorem Represents.isExtreme (hs : f.Represents xs s) (h : resolve (.extreme isMax) [t] = .ok f)
    (hplain : ∀ v ∈ xs, v.Plain t) : ∃ v, f.finalize s = .ok v ∧ IsExtreme isMax xs v := by
  obtain ⟨hf, htypes, hc⟩ := resolve_extreme h
  obtain ⟨v, rfl, hv, hplace⟩ := hs.of_extreme hf htypes
  refine ⟨v, finalize_extreme hf, ?_⟩
  by_cases hnull : v = .null
  · subst hnull
    refine .null fun w hw => ?_
    by_contra hne
    have hnone := total_eq_none.mp hplace.symm w hw
    rw [place?_eq hne] at hnone
    cases hnone
  · have hsame {w : Value} (hw : w ∈ xs) (hp : w.place? = v.place?) : w = v :=
      place?_injective hc (hplain w hw) hv hp
    rw [place?_eq hnull] at hplace hsame
    obtain ⟨u, hu, hup⟩ := exists_of_total hplace.symm
    refine .value (hsame hu hup ▸ hu) hnull fun w hw hwnull hne => ?_
    have hvt := Value.dataType_of_fits hv.fits hnull
    have hwt := Value.dataType_of_fits (hplain w hw).fits hwnull
    have hkept := prefer_of_total hplace.symm hw (place?_eq hwnull)
    have hapart : w.place ≠ v.place := fun hp => hne (hsame hw (by rw [place?_eq hwnull, hp]))
    rw [Value.compare?_eq_place hnull (hvt ▸ hc) (hvt.trans hwt.symm),
      compare_of_prefer hkept hapart]

theorem Represents.roundTrips (hs : f.Represents xs s) (h : resolve (.extreme isMax) [t] = .ok f) :
    RoundTrips s.write PartialState.read s := by
  obtain ⟨hf, htypes, hc⟩ := resolve_extreme h
  obtain ⟨v, rfl, hv, -⟩ := hs.of_extreme hf htypes
  have hflat : (PartialState.extreme isMax v).IsFlat := by
    rintro hstate
    rcases Value.fits_iff.mp hv.fits with rfl | rfl
    · cases hstate
    · rw [hstate] at hc
      cases hc
  exact .of_spells ((PartialState.write_spells hflat).mono fun bytes hb =>
    .of_reads PartialState.read_reads hb)

/-- Over values of one type, minimum and maximum fail along no tree, and every state on the way can
be written and read again. The result is the one value that is least or greatest, whatever the
order of the values, the places in which they lie and the shape of the tree. -/
theorem extremes_agree (isMax : Bool) (hc : t.isComparable = true) (ht : t ≠ .undefined) :
    ∃ f, resolve (.extreme isMax) [t] = .ok f ∧
      ∀ tree : MergeTree Value, (∀ v ∈ tree.items, v.Plain t) →
        (∀ part ∈ tree.parts, ∃ s, f.fold ([·]) part = .ok s ∧
          RoundTrips s.write PartialState.read s) ∧
        ∃ v, f.outcome ([·]) tree = .ok v ∧ IsExtreme isMax tree.items v ∧
          ∀ other : MergeTree Value, other.items.Perm tree.items →
            f.outcome ([·]) other = .ok v := by
  obtain ⟨f, h⟩ : ∃ f, resolve (.extreme isMax) [t] = .ok f := by
    simp [resolve, Summary.returnType?, hc, ht]
  refine ⟨f, h, fun tree hplain => ?_⟩
  have hfold {tree : MergeTree Value} (hplain : ∀ v ∈ tree.items, v.Plain t) :
      ∃ s, f.fold ([·]) tree = .ok s ∧ f.Represents tree.items s := by
    obtain ⟨s, hs, hrep⟩ :=
      ((bounded_extreme h mixedExtremes).fold ([·]) hplain).exists_ok fun _ _ => trivial
    exact ⟨s, hs, by simpa using hrep⟩
  constructor
  · intro part hpart
    have hsub := (MergeTree.items_sublist hpart).subset
    obtain ⟨s, hs, hrep⟩ := hfold fun v hv => hplain v (hsub hv)
    exact ⟨s, hs, hrep.roundTrips h⟩
  · obtain ⟨s, hs, hrep⟩ := hfold hplain
    obtain ⟨v, hv, hextreme⟩ := hrep.isExtreme h hplain
    refine ⟨v, by rw [outcome_ok hs, hv], hextreme, fun other hp => ?_⟩
    obtain ⟨u, hu, hrep'⟩ := hfold fun v hv => hplain v (hp.mem_iff.mp hv)
    rw [outcome_ok hu, (hrep'.perm hp).unique hrep, hv]

/-- Of the two zeros the negative one is the minimum, wherever it lies. -/
theorem extremes_agree_zeros :
    let tree : MergeTree Value :=
      .node (.leaf [.double ⟨0⟩, .null]) (.node (.leaf []) (.leaf [.double ⟨0x8000000000000000⟩]))
    DataType.double.isComparable = true ∧ DataType.double ≠ .undefined ∧
      (∀ v ∈ tree.items, v.Plain .double) ∧
      ∃ f, resolve (.extreme false) [.double] = .ok f ∧
        f.outcome ([·]) tree = .ok (.double ⟨0x8000000000000000⟩) ∧
        ∀ other : MergeTree Value, other.items.Perm tree.items →
          f.outcome ([·]) other = .ok (.double ⟨0x8000000000000000⟩) := by
  intro tree
  have hplain : ∀ v ∈ tree.items, v.Plain .double := by
    simp only [tree, MergeTree.items, List.cons_append, List.nil_append, List.forall_mem_cons]
    exact ⟨⟨rfl, rfl⟩, ⟨rfl, rfl⟩, ⟨rfl, rfl⟩, List.forall_mem_nil _⟩
  obtain ⟨f, hf, hagree⟩ := extremes_agree (t := .double) false rfl (by decide)
  obtain ⟨-, v, hv, -, hother⟩ := hagree tree hplain
  have hzero : f.outcome ([·]) tree = .ok (.double ⟨0x8000000000000000⟩) := by
    cases hf
    rfl
  obtain rfl : v = .double ⟨0x8000000000000000⟩ := Except.ok.inj (hv.symm.trans hzero)
  exact ⟨rfl, by decide, hplain, f, hf, hv, hother⟩

end AggregateFunction

end ShardQuery
