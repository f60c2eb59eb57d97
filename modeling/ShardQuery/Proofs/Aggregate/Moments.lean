import Mathlib.Algebra.Field.Rat
import Mathlib.Tactic.FieldSimp
import Mathlib.Tactic.Ring
import Mathlib.Algebra.BigOperators.Ring.List
import Mathlib.Algebra.BigOperators.Group.List.Basic
import ShardQuery.Aggregate.Moments
import ShardQuery.Proofs.Aggregate.MergeTree
/-!
# Mean and variance in exact numbers

In numbers that are not rounded, the moments of a stream are the moments of its list of
values, and merging two summaries summarises both lists. So the variance along a tree is
that of all values together, in whatever order two summaries are combined.
-/

namespace ShardQuery

-- ---------------------------------------------------------------------------
-- Moments of a list
-- ---------------------------------------------------------------------------

namespace Population

def mean (xs : List ℚ) : ℚ := xs.sum / xs.length

def deviation (xs : List ℚ) : ℚ := (xs.map fun x => (x - mean xs) ^ 2).sum

def variance : List ℚ → Option ℚ
  | [] => none
  | xs => some (deviation xs / xs.length)

def squares (xs : List ℚ) : ℚ := (xs.map (· ^ 2)).sum

variable {xs ys : List ℚ}

theorem length_ne_zero (h : xs ≠ []) : (xs.length : ℚ) ≠ 0 := by simpa using h

theorem sum_sq_sub (m : ℚ) (xs : List ℚ) :
    (xs.map fun x => (x - m) ^ 2).sum = squares xs - 2 * m * xs.sum + xs.length * m ^ 2 := by
  induction xs with
  | nil => simp [squares]
  | cons x xs ih =>
    simp only [squares, List.map_cons, List.sum_cons, List.length_cons, Nat.cast_add,
      Nat.cast_one] at ih ⊢
    rw [ih]
    ring

theorem deviation_eq (xs : List ℚ) : deviation xs = squares xs - xs.sum ^ 2 / xs.length := by
  rw [deviation, sum_sq_sub, mean]
  by_cases h : xs = []
  · simp [h]
  · have hn := length_ne_zero h
    field_simp
    ring

theorem mean_perm (h : xs.Perm ys) : mean xs = mean ys := by
  rw [mean, mean, h.sum_eq, h.length_eq]

theorem deviation_singleton (x : ℚ) : deviation [x] = 0 := by simp [deviation, mean]

theorem variance_singleton (x : ℚ) : variance [x] = some 0 := by
  simp [variance, deviation_singleton]

theorem variance_of_ne_nil (h : xs ≠ []) : variance xs = some (deviation xs / xs.length) := by
  cases xs with
  | nil => exact absurd rfl h
  | cons => rfl

theorem deviation_perm (h : xs.Perm ys) : deviation xs = deviation ys := by
  rw [deviation_eq, deviation_eq, squares, squares, (h.map _).sum_eq, h.sum_eq, h.length_eq]

-- ---------------------------------------------------------------------------
-- One more number
-- ---------------------------------------------------------------------------

theorem mean_snoc (xs : List ℚ) (x : ℚ) :
    mean (xs ++ [x]) = mean xs + (x - mean xs) / (xs.length + 1) := by
  have hn : (xs.length : ℚ) + 1 ≠ 0 := xs.length.cast_add_one_ne_zero
  simp only [mean, List.sum_append, List.sum_singleton, List.length_append, List.length_singleton,
    Nat.cast_add, Nat.cast_one]
  by_cases h : xs = []
  · simp [h]
  · have := length_ne_zero h
    field_simp
    ring

theorem deviation_snoc (xs : List ℚ) (x : ℚ) :
    deviation (xs ++ [x]) = deviation xs + (x - mean xs) * (x - mean (xs ++ [x])) := by
  have hn : (xs.length : ℚ) + 1 ≠ 0 := xs.length.cast_add_one_ne_zero
  have hsquares : squares (xs ++ [x]) = squares xs + x ^ 2 := by simp [squares]
  rw [deviation_eq, deviation_eq, hsquares, mean_snoc, mean]
  simp only [List.sum_append, List.sum_singleton, List.length_append, List.length_singleton,
    Nat.cast_add, Nat.cast_one]
  by_cases h : xs = []
  · simp [h, squares]
  · have := length_ne_zero h
    field_simp
    ring

-- ---------------------------------------------------------------------------
-- Two lists
-- ---------------------------------------------------------------------------

theorem length_add_length_ne_zero (h : xs ≠ []) (ys : List ℚ) :
    (xs.length : ℚ) + ys.length ≠ 0 := by
  rw [← Nat.cast_add, ← List.length_append]
  exact length_ne_zero (List.append_ne_nil_of_left_ne_nil h ys)

theorem mean_append (hx : xs ≠ []) (hy : ys ≠ []) :
    mean (xs ++ ys) = mean xs + (mean ys - mean xs) * ys.length / (xs.length + ys.length) := by
  have hm := length_ne_zero hx
  have hn := length_ne_zero hy
  have hmn := length_add_length_ne_zero hx ys
  simp only [mean, List.sum_append, List.length_append, Nat.cast_add]
  field_simp
  ring

theorem deviation_append (hx : xs ≠ []) (hy : ys ≠ []) :
    deviation (xs ++ ys) = deviation xs + deviation ys +
      (mean ys - mean xs) * (mean ys - mean xs) * xs.length * ys.length /
        (xs.length + ys.length) := by
  have hm := length_ne_zero hx
  have hn := length_ne_zero hy
  have hmn := length_add_length_ne_zero hx ys
  have hsquares : squares (xs ++ ys) = squares xs + squares ys := by simp [squares]
  simp only [deviation_eq, hsquares, mean, List.sum_append, List.length_append, Nat.cast_add]
  field_simp
  ring

end Population

-- ---------------------------------------------------------------------------
-- Summaries
-- ---------------------------------------------------------------------------

/-- Any order in which two summaries may be put. The laws below ask nothing of it. -/
class Ranking where
  order : ℚ → ℚ → Ordering

instance [Ranking] : Arithmetic ℚ where
  zero := 0
  ofCount n := n.toNat
  order := Ranking.order

namespace Moments

variable {xs ys : List ℚ} {x : ℚ}

def describe (xs : List ℚ) : Moments ℚ :=
  ⟨.ofNat xs.length, Population.mean xs, Population.deviation xs⟩

theorem describe_perm (h : xs.Perm ys) : describe xs = describe ys := by
  rw [describe, describe, h.length_eq, Population.mean_perm h, Population.deviation_perm h]

theorem length_lt_of_append (h : (xs ++ ys).length < 2 ^ 64) :
    xs.length < 2 ^ 64 ∧ ys.length < 2 ^ 64 := by
  rw [List.length_append] at h
  omega

theorem describe_count (h : xs.length < 2 ^ 64) : (describe xs).count.toNat = xs.length :=
  UInt64.toNat_ofNat_of_lt' h

theorem describe_count_eq_zero (h : xs.length < 2 ^ 64) : (describe xs).count = 0 ↔ xs = [] := by
  rw [← UInt64.toNat_inj, describe_count h]
  exact List.length_eq_zero_iff

theorem describe_count_append (xs ys : List ℚ) :
    (describe (xs ++ ys)).count = (describe xs).count + (describe ys).count := by
  simp [describe]

variable [Ranking]

theorem ofCount_describe (h : xs.length < 2 ^ 64) :
    (Arithmetic.ofCount (describe xs).count : ℚ) = xs.length :=
  congrArg Nat.cast (describe_count h)

def ofList (xs : List ℚ) : Moments ℚ := xs.foldl add empty

def ofTree : MergeTree ℚ → Moments ℚ
  | .leaf xs => ofList xs
  | .node left right => (ofTree left).merge (ofTree right)

theorem describe_nil : describe [] = empty := by
  have hmean : Population.mean [] = 0 := by simp [Population.mean]
  rw [describe, hmean]
  rfl

theorem add_describe (h : (xs ++ [x]).length < 2 ^ 64) :
    (describe xs).add x = describe (xs ++ [x]) := by
  have hcount : (describe xs).count + 1 = (describe (xs ++ [x])).count :=
    (describe_count_append xs [x]).symm
  have hmean : ((describe xs).add x).mean = Population.mean (xs ++ [x]) := by
    change Population.mean xs + (x - Population.mean xs) /
      Arithmetic.ofCount ((describe xs).count + 1) = _
    rw [hcount, ofCount_describe h, Population.mean_snoc, List.length_append,
      List.length_singleton, Nat.cast_add, Nat.cast_one]
  have hdeviation : ((describe xs).add x).deviation = Population.deviation (xs ++ [x]) := by
    change Population.deviation xs +
      (x - Population.mean xs) * (x - ((describe xs).add x).mean) = _
    rw [hmean, Population.deviation_snoc]
  exact (Moments.mk.injEq ..).mpr ⟨hcount, hmean, hdeviation⟩

theorem ofList_eq (h : xs.length < 2 ^ 64) : ofList xs = describe xs := by
  induction xs using List.reverseRecOn with
  | nil => exact describe_nil.symm
  | append_singleton xs x ih =>
    rw [← add_describe h, ← ih (length_lt_of_append h).1, ofList, List.foldl_append]
    rfl

theorem combine_describe (hx : xs ≠ []) (hy : ys ≠ []) (h : (xs ++ ys).length < 2 ^ 64) :
    (describe xs).combine (describe ys) = describe (xs ++ ys) := by
  obtain ⟨hxs, hys⟩ := length_lt_of_append h
  have hn : (Arithmetic.ofCount ((describe xs).count + (describe ys).count) : ℚ) =
      xs.length + ys.length := by
    rw [← describe_count_append, ofCount_describe h, List.length_append, Nat.cast_add]
  have hmean : ((describe xs).combine (describe ys)).mean = Population.mean (xs ++ ys) := by
    change Population.mean xs + (Population.mean ys - Population.mean xs) *
      Arithmetic.ofCount (describe ys).count /
        Arithmetic.ofCount ((describe xs).count + (describe ys).count) = _
    rw [hn, ofCount_describe hys, Population.mean_append hx hy]
  have hdeviation :
      ((describe xs).combine (describe ys)).deviation = Population.deviation (xs ++ ys) := by
    change Population.deviation xs + Population.deviation ys +
      (Population.mean ys - Population.mean xs) * (Population.mean ys - Population.mean xs) *
        Arithmetic.ofCount (describe xs).count * Arithmetic.ofCount (describe ys).count /
          Arithmetic.ofCount ((describe xs).count + (describe ys).count) = _
    rw [hn, ofCount_describe hxs, ofCount_describe hys, Population.deviation_append hx hy]
  exact (Moments.mk.injEq ..).mpr ⟨(describe_count_append xs ys).symm, hmean, hdeviation⟩

theorem merge_describe (h : (xs ++ ys).length < 2 ^ 64) :
    (describe xs).merge (describe ys) = describe (xs ++ ys) := by
  obtain ⟨hxs, hys⟩ := length_lt_of_append h
  have hswap : (ys ++ xs).Perm (xs ++ ys) := List.perm_append_comm
  simp only [merge, describe_count_eq_zero hxs, describe_count_eq_zero hys]
  split_ifs with hx hy
  · rw [hx, List.nil_append]
  · rw [hy, List.append_nil]
  · rw [combine_describe hy hx (by rwa [hswap.length_eq]), describe_perm hswap]
  · exact combine_describe hx hy h

theorem ofTree_eq {tree : MergeTree ℚ} (h : tree.items.length < 2 ^ 64) :
    ofTree tree = describe tree.items := by
  induction tree with
  | leaf xs => exact ofList_eq h
  | node left right ihl ihr =>
    obtain ⟨hl, hr⟩ := length_lt_of_append h
    rw [ofTree, ihl hl, ihr hr]
    exact merge_describe h

theorem variance_describe (h : xs.length < 2 ^ 64) :
    (describe xs).variance = Population.variance xs := by
  have hone : (describe xs).count = 1 ↔ xs.length = 1 := by
    rw [← UInt64.toNat_inj, describe_count h]
    rfl
  simp only [variance, describe_count_eq_zero h, hone, ofCount_describe h]
  split_ifs with hnil hlength
  · rw [hnil]
    rfl
  · obtain ⟨x, rfl⟩ := List.length_eq_one_iff.mp hlength
    exact (Population.variance_singleton x).symm
  · exact (Population.variance_of_ne_nil hnil).symm

/-- The summary of a list has its length, its mean and its squared deviations, two summaries are
merged into that of both lists, and the variance along every tree of some numbers is theirs. -/
theorem moments_exact :
    (∀ xs : List ℚ, xs.length < 2 ^ 64 →
      (ofList xs).count.toNat = xs.length ∧ (ofList xs).mean = Population.mean xs ∧
        (ofList xs).deviation = Population.deviation xs) ∧
    (∀ xs ys : List ℚ, (xs ++ ys).length < 2 ^ 64 →
      (ofList xs).merge (ofList ys) = ofList (xs ++ ys)) ∧
    ∀ (xs : List ℚ) (tree : MergeTree ℚ), xs.length < 2 ^ 64 → tree.items.Perm xs →
      (ofTree tree).variance = Population.variance xs ∧
        (xs = [] → (ofTree tree).variance = none) ∧
        ∀ x, xs = [x] → (ofTree tree).variance = some 0 := by
  refine ⟨fun xs h => ?_, fun xs ys h => ?_, fun xs tree h hperm => ?_⟩
  · rw [ofList_eq h]
    exact ⟨describe_count h, rfl, rfl⟩
  · obtain ⟨hxs, hys⟩ := length_lt_of_append h
    rw [ofList_eq h, ofList_eq hxs, ofList_eq hys, merge_describe h]
  · have hvariance : (ofTree tree).variance = Population.variance xs := by
      rw [ofTree_eq (by rwa [hperm.length_eq]), describe_perm hperm, variance_describe h]
    refine ⟨hvariance, ?_, ?_⟩
    · rintro rfl
      exact hvariance
    · rintro x rfl
      exact hvariance.trans (Population.variance_singleton x)

omit [Ranking] in
theorem moments_exact_three : letI : Ranking := ⟨compare⟩
    let tree : MergeTree ℚ := .node (.leaf [3, 1]) (.node (.leaf []) (.leaf [2]))
    [(1 : ℚ), 2, 3].length < 2 ^ 64 ∧ tree.items.Perm [1, 2, 3] ∧
      (ofTree tree).variance = some (2 / 3) := by
  intro tree
  let : Ranking := ⟨compare⟩
  have hperm : tree.items.Perm [1, 2, 3] := by decide
  have hlength : [(1 : ℚ), 2, 3].length < 2 ^ 64 := by decide
  have hvariance : Population.variance [1, 2, 3] = some (2 / 3) := by
    norm_num [Population.variance, Population.deviation, Population.mean]
  exact ⟨hlength, hperm, (moments_exact.2.2 _ tree hlength hperm).1.trans hvariance⟩

end Moments

end ShardQuery
