import Mathlib.Algebra.BigOperators.Group.List.Basic
import Mathlib.Algebra.Order.BigOperators.Group.List
import ShardQuery.Proofs.Aggregate.Represents
/-!
# What values come to as integers

The sum of values in integers without bounds, and the sums on the way to it. Values that
come to a long have an order in which no sum on the way leaves the longs. In every order
the sums lie between what the negative values come to and what the positive ones do.
-/

namespace ShardQuery

def IsLong (n : Int) : Prop := -2 ^ 63 ≤ n ∧ n < 2 ^ 63

instance (n : Int) : Decidable (IsLong n) := inferInstanceAs (Decidable (_ ∧ _))

theorem isLong_toInt (n : Int64) : IsLong n.toInt := ⟨n.le_toInt, n.toInt_lt⟩

theorem toLong?_of_isLong {n : Int} (h : IsLong n) : toLong? n = some (Int64.ofInt n) := if_pos h

theorem toLong?_of_not_isLong {n : Int} (h : ¬ IsLong n) : toLong? n = none := if_neg h

theorem IsLong.toInt_ofInt {n : Int} (h : IsLong n) : (Int64.ofInt n).toInt = n :=
  Int64.toInt_ofInt_of_le h.1 h.2

namespace Value

variable {v : Value} {t : DataType}

def amount (v : Value) : Int := v.integer?.getD 0

theorem isLong_amount (v : Value) : IsLong v.amount := by
  unfold amount integer?
  cases v.long? with
  | none => exact isLong_toInt 0
  | some n => exact isLong_toInt n

theorem exists_long_of_fits (ht : t.isIntegral = true) (hv : v.fits t = true) (hnull : v ≠ .null) :
    ∃ n, v.long? = some n := by
  obtain rfl := dataType_of_fits hv hnull
  exact exists_long ht

theorem integer?_eq_none (ht : t.isIntegral = true) (hv : v.fits t = true) :
    v.integer? = none ↔ v = .null := by
  refine ⟨fun h => ?_, fun h => h ▸ rfl⟩
  by_contra hnull
  obtain ⟨n, hn⟩ := exists_long_of_fits ht hv hnull
  simp [integer?, hn] at h

end Value

-- ---------------------------------------------------------------------------
-- Sums
-- ---------------------------------------------------------------------------

variable {xs ys : List Value}

def exactSum (values : List Value) : Int := (values.map Value.amount).sum

theorem exactSum_nil : exactSum [] = 0 := rfl

theorem exactSum_cons (v : Value) (xs : List Value) :
    exactSum (v :: xs) = v.amount + exactSum xs := List.sum_cons

theorem exactSum_append (xs ys : List Value) :
    exactSum (xs ++ ys) = exactSum xs + exactSum ys := by
  rw [exactSum, List.map_append, List.sum_append]
  rfl

theorem exactSum_perm (h : xs.Perm ys) : exactSum xs = exactSum ys := (h.map _).sum_eq

theorem exactSum_eq_total (xs : List Value) :
    exactSum xs = (total (· + ·) Value.integer? xs).getD 0 := by
  induction xs with
  | nil => rfl
  | cons v xs ih =>
    rw [exactSum_cons, total_cons, ih, Value.amount]
    cases v.integer? <;> cases total (· + ·) Value.integer? xs <;> simp

theorem exactSum_eq {sum : Option Int64}
    (h : sum.map Int64.toInt = total (· + ·) Value.integer? xs) :
    exactSum xs = (sum.getD 0).toInt := by
  rw [exactSum_eq_total, ← h]
  cases sum <;> rfl

-- ---------------------------------------------------------------------------
-- Sums on the way
-- ---------------------------------------------------------------------------

def gains (values : List Value) : Int := exactSum (values.filter fun v => 0 < v.amount)

def losses (values : List Value) : Int := exactSum (values.filter fun v => v.amount < 0)

theorem gains_perm (h : xs.Perm ys) : gains xs = gains ys := exactSum_perm (h.filter _)

theorem losses_perm (h : xs.Perm ys) : losses xs = losses ys := exactSum_perm (h.filter _)

theorem gains_cons (v : Value) (xs : List Value) :
    gains (v :: xs) = max v.amount 0 + gains xs := by
  unfold gains
  by_cases hv : 0 < v.amount
  · rw [List.filter_cons_of_pos (by simpa using hv), exactSum_cons, max_eq_left hv.le]
  · rw [List.filter_cons_of_neg (by simpa using hv), max_eq_right (not_lt.mp hv), zero_add]

theorem losses_cons (v : Value) (xs : List Value) :
    losses (v :: xs) = min v.amount 0 + losses xs := by
  unfold losses
  by_cases hv : v.amount < 0
  · rw [List.filter_cons_of_pos (by simpa using hv), exactSum_cons, min_eq_left hv.le]
  · rw [List.filter_cons_of_neg (by simpa using hv), min_eq_right (not_lt.mp hv), zero_add]

/-- No choice among the values comes to more than the gains, or to less than the losses. -/
theorem exactSum_bounds (h : xs.Sublist ys) : losses ys ≤ exactSum xs ∧ exactSum xs ≤ gains ys := by
  induction h with
  | slnil => exact ⟨le_refl _, le_refl _⟩
  | cons v _ ih =>
    rw [losses_cons, gains_cons]
    omega
  | cons_cons v _ ih =>
    rw [losses_cons, gains_cons, exactSum_cons]
    omega

theorem exists_next {start : Int} (hne : xs ≠ []) (hstart : IsLong start)
    (htotal : IsLong (start + exactSum xs)) : ∃ v ∈ xs, IsLong (start + v.amount) := by
  by_contra! hover
  have hlong : ∀ v ∈ xs, IsLong v.amount := fun v _ => v.isLong_amount
  obtain ⟨v, rest, rfl⟩ := List.exists_cons_of_ne_nil hne
  simp only [IsLong, List.forall_mem_cons, exactSum_cons] at *
  rcases le_or_gt 0 start with hpos | hneg
  · -- no value can be added, so all of them are positive
    have hrest : 0 ≤ exactSum rest := by
      refine List.sum_nonneg (List.forall_mem_map.mpr fun w hw => ?_)
      have := hover.2 w hw
      have := hlong.2 w hw
      omega
    omega
  · have hrest : exactSum rest ≤ 0 := by
      refine (List.sum_le_card_nsmul _ 0 (List.forall_mem_map.mpr fun w hw => ?_)).trans_eq
        (nsmul_zero _)
      have := hover.2 w hw
      have := hlong.2 w hw
      omega
    omega

/-- Values that come to a long can be added one after another without leaving the longs. -/
theorem exists_order {start : Int} (hstart : IsLong start)
    (htotal : IsLong (start + exactSum xs)) :
    ∃ ys, ys.Perm xs ∧ ∀ front, front <+: ys → IsLong (start + exactSum front) := by
  induction hn : xs.length generalizing xs start with
  | zero =>
    obtain rfl := List.length_eq_zero_iff.mp hn
    refine ⟨[], .refl _, fun front hfront => ?_⟩
    rwa [List.prefix_nil.mp hfront]
  | succ n ih =>
    have hne : xs ≠ [] := List.ne_nil_of_length_eq_add_one hn
    obtain ⟨v, hv, hnext⟩ := exists_next hne hstart htotal
    obtain ⟨before, after, rfl⟩ := List.append_of_mem hv
    have hperm : (before ++ v :: after).Perm (v :: (before ++ after)) := List.perm_middle
    rw [exactSum_perm hperm, exactSum_cons, ← add_assoc] at htotal
    rw [hperm.length_eq, List.length_cons, Nat.add_right_cancel_iff] at hn
    obtain ⟨ys, hys, hfronts⟩ := ih hnext htotal hn
    refine ⟨v :: ys, (hys.cons v).trans hperm.symm, fun front hfront => ?_⟩
    rcases List.prefix_cons_iff.mp hfront with rfl | ⟨rest, rfl, hrest⟩
    · rwa [exactSum_nil, add_zero]
    · rw [exactSum_cons, ← add_assoc]
      exact hfronts rest hrest

end ShardQuery
