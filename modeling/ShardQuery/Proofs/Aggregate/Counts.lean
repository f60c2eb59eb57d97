import Mathlib.Algebra.BigOperators.Group.List.Basic
import ShardQuery.Proofs.Aggregate.Columns
import ShardQuery.Proofs.Aggregate.Symmetry
/-!
# Counts of merged states

Counts, averages and variances say of how many values their states were made. Merging
adds these counts, and what it comes to is exact. Where the sum has no room in a word it
comes to nothing: the task halts, while a sum of longs would have failed with an error.
-/

namespace ShardQuery

def Summary.keepsCount : Summary → Bool
  | .count | .average | .variance | .spread => true
  | .sum | .extreme _ => false

/-- The number of values that the state was made of, as it says itself; zero if it does not say. -/
def PartialState.counted : PartialState → UInt64
  | .count n => n
  | .average n _ => n
  | .variance m => m.count
  | .sumLong _ | .sumDouble _ | .extreme .. => 0

namespace AggregateFunction

variable {f : AggregateFunction} {s t u : PartialState} {states : List PartialState}

/-- A state with this count, or a halt if there is no room for it. -/
inductive Counts (f : AggregateFunction) (count : Nat) : Except Halt PartialState → Prop
  | ok {u : PartialState} : f.Kindred u → u.counted.toNat = count → Counts f count (.ok u)
  | halt : 2 ^ 64 ≤ count → Counts f count (.error .overflow)

namespace Counts

variable {count : Nat} {result : Except Halt PartialState}

theorem ok_iff (h : f.Counts count result) :
    (∃ u, result = .ok u ∧ f.Kindred u ∧ u.counted.toNat = count) ↔ count < 2 ^ 64 := by
  cases h with
  | @ok u hkindred hcount =>
    exact iff_of_true ⟨u, rfl, hkindred, hcount⟩ (hcount ▸ u.counted.toNat_lt)
  | halt hover => exact iff_of_false nofun (Nat.not_lt_of_le hover)

theorem halt_iff (h : f.Counts count result) : result = .error .overflow ↔ 2 ^ 64 ≤ count := by
  cases h with
  | @ok u _ hcount =>
    exact iff_of_false nofun (Nat.not_le_of_lt (hcount ▸ u.counted.toNat_lt))
  | halt hover => exact iff_of_true rfl hover

theorem of_addCounts {m n : UInt64} {state : UInt64 → PartialState}
    (h : f.Kindred (state (m + n)) ∧ (state (m + n)).counted = m + n) :
    f.Counts (m.toNat + n.toNat) ((addCounts m n).map state) := by
  obtain ⟨hkindred, hcount⟩ := h
  by_cases hroom : m.toNat + n.toNat < 2 ^ 64
  · have hsum := addCounts_of_lt hroom
    rw [hsum]
    exact .ok hkindred (by rw [hcount, addCounts_eq_ok.mp hsum])
  · have hover := Nat.le_of_not_lt hroom
    rw [addCounts_of_le hover]
    exact .halt hover

end Counts

theorem merge_counts (hf : f.summary.keepsCount = true) (hs : f.Kindred s) (ht : f.Kindred t) :
    f.Counts (s.counted.toNat + t.counted.toNat) (f.merge s t) := by
  cases hs with
  | @count m hsummary =>
    obtain ⟨n, rfl⟩ := ht.exists_count hsummary
    simp only [merge, hsummary]
    exact .of_addCounts ⟨.count hsummary, rfl⟩
  | @average m x hsummary =>
    obtain ⟨n, y, rfl⟩ := ht.exists_average hsummary
    simp only [merge, hsummary]
    exact .of_addCounts ⟨.average hsummary, rfl⟩
  | @variance m hsummary =>
    obtain ⟨n, rfl⟩ := ht.exists_variance hsummary
    have hmerge : f.merge (.variance m) (.variance n) =
        (addCounts m.count n.count).map fun _ => .variance (m.merge n) := by
      rcases hsummary with hsummary | hsummary <;> simp only [merge, hsummary]
    rw [hmerge]
    exact .of_addCounts ⟨.variance hsummary, Moments.count_merge m n⟩
  | sumLong hsummary | sumDouble hsummary | extreme hsummary =>
    rw [hsummary] at hf
    cases hf

theorem initial_counted : f.initial.counted = 0 := by
  unfold AggregateFunction.initial
  (repeat' split) <;> rfl

def totalCount (states : List PartialState) : Nat := (states.map fun s => s.counted.toNat).sum

theorem totalCount_snoc : totalCount (states ++ [s]) = totalCount states + s.counted.toNat := by
  simp [totalCount]

/-- A column is merged until its count has no room, which it does not gain again. -/
theorem mergeAll_counts (hf : f.summary.keepsCount = true) (h : ∀ s ∈ states, f.Kindred s) :
    ∃ result, f.mergeAll states = Halt.reported result ∧ f.Counts (totalCount states) result := by
  induction states using List.reverseRecOn with
  | nil =>
    have hcount : f.initial.counted.toNat = totalCount [] := by
      rw [initial_counted]
      rfl
    refine ⟨.ok f.initial, mergeAll_nil, .ok (.initial fun hsum => ?_) hcount⟩
    rw [hsum] at hf
    cases hf
  | append_singleton states t ih =>
    obtain ⟨hstates, ht⟩ := List.forall_mem_append.mp h
    obtain ⟨result, hresult, hcounts⟩ := ih hstates
    rw [mergeAll_snoc, hresult, totalCount_snoc]
    cases hcounts with
    | @ok s hkindred hcount =>
      rw [← hcount]
      exact ⟨f.merge s t, rfl, merge_counts hf hkindred (ht t List.mem_cons_self)⟩
    | halt hover => exact ⟨.error .overflow, rfl, .halt (hover.trans (Nat.le_add_right ..))⟩

/-- Two states of an aggregate that counts are merged to one with the exact count if there is room
for it in a word. If there is none, the merge is no error but halts the task. The same goes for a
column of states, whose task is then reported to have failed. -/
theorem merged_count_exact_iff (hf : f.summary.keepsCount = true) :
    (∀ s t, f.Kindred s → f.Kindred t →
      ((∃ u, f.merge s t = .ok u ∧ f.Kindred u ∧
          u.counted.toNat = s.counted.toNat + t.counted.toNat) ↔
        s.counted.toNat + t.counted.toNat < 2 ^ 64) ∧
      (f.merge s t = .error .overflow ↔ 2 ^ 64 ≤ s.counted.toNat + t.counted.toNat)) ∧
    ∀ states, (∀ s ∈ states, f.Kindred s) →
      ((∃ u, f.mergeAll states = .ok u ∧ f.Kindred u ∧ u.counted.toNat = totalCount states) ↔
        totalCount states < 2 ^ 64) ∧
      (2 ^ 64 ≤ totalCount states → f.mergeAll states = .error Halt.overflow.report) := by
  refine ⟨fun s t hs ht => ?_, fun states h => ?_⟩
  · have hcounts := merge_counts hf hs ht
    exact ⟨hcounts.ok_iff, hcounts.halt_iff⟩
  · obtain ⟨result, hresult, hcounts⟩ := mergeAll_counts hf h
    rw [hresult]
    simp only [Halt.reported_eq_ok]
    refine ⟨hcounts.ok_iff, fun hover => ?_⟩
    rw [hcounts.halt_iff.mpr hover, Halt.reported_error]

theorem merged_count_exact_iff_full :
    let s : PartialState := .variance ⟨0x8000000000000000, .zero, .zero⟩
    let t : PartialState := .variance ⟨0x7fffffffffffffff, .zero, .zero⟩
    ∃ f, resolve .spread [.double] = .ok f ∧ f.summary.keepsCount = true ∧ f.Kindred s ∧
      f.Kindred t ∧ ∃ u, f.merge s t = .ok u ∧ f.Kindred u ∧ u.counted.toNat = 2 ^ 64 - 1 := by
  intro s t
  let f : AggregateFunction := ⟨⟨⟨"stddev", [.double]⟩, .double, .aggregate⟩, .spread⟩
  have hs : f.Kindred s := .variance (.inr rfl)
  have ht : f.Kindred t := .variance (.inr rfl)
  obtain ⟨u, hu, hkindred, hcount⟩ :=
    ((merged_count_exact_iff (f := f) rfl).1 s t hs ht).1.mpr (by decide)
  exact ⟨f, rfl, rfl, hs, ht, u, hu, hkindred, hcount.trans (by decide)⟩

/-- One value more than a word can count: no aggregate that counts comes to a state or to an
error. -/
theorem merged_count_halts :
    let most : UInt64 := 0xffffffffffffffff
    (Wire.Reader.start PartialState.read [0, 255, 255, 255, 255, 255, 255, 255, 255, 255, 1]).1 =
      .ok (.count most) ∧
    (∃ f, resolve .count [] = .ok f ∧ f.merge (.count most) (.count 1) = .error .overflow) ∧
    (∃ f, resolve .average [.long] = .ok f ∧
      ∀ x y, f.merge (.average most x) (.average 1 y) = .error .overflow) ∧
    ∀ summary ∈ [Summary.variance, .spread], ∃ f, resolve summary [.long] = .ok f ∧
      ∀ x y, f.merge (.variance ⟨most, x, y⟩) (.variance ⟨1, x, y⟩) = .error .overflow := by
  intro most
  have hover : 2 ^ 64 ≤ most.toNat + (1 : UInt64).toNat := by decide
  refine ⟨rfl, ⟨⟨⟨⟨"count", []⟩, .long, .aggregate⟩, .count⟩, rfl, ?_⟩,
    ⟨⟨⟨⟨"avg", [.long]⟩, .double, .aggregate⟩, .average⟩, rfl, fun x y => ?_⟩, fun summary h => ?_⟩
  · exact (merge_counts rfl (.count rfl) (.count rfl)).halt_iff.mpr hover
  · exact (merge_counts rfl (.average rfl) (.average rfl)).halt_iff.mpr hover
  · simp only [List.mem_cons, List.not_mem_nil, or_false] at h
    obtain rfl | rfl := h
    · refine ⟨⟨⟨⟨"variance", [.long]⟩, .double, .aggregate⟩, .variance⟩, rfl, fun x y => ?_⟩
      exact (merge_counts rfl (.variance (.inl rfl)) (.variance (.inl rfl))).halt_iff.mpr hover
    · refine ⟨⟨⟨⟨"stddev", [.long]⟩, .double, .aggregate⟩, .spread⟩, rfl, fun x y => ?_⟩
      exact (merge_counts rfl (.variance (.inr rfl)) (.variance (.inr rfl))).halt_iff.mpr hover

end AggregateFunction

end ShardQuery
