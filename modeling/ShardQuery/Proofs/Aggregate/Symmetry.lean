import ShardQuery.Aggregate.Moments
import ShardQuery.Proofs.Number.Single
/-!
# Merging two summaries either way

Arithmetic that rounds is not commutative in its bits, so nothing is asked of it here.
Two summaries are put into an order that tells all bits apart before they are combined,
and a summary that counts nothing is the empty one, so both ways take the same branch.
-/

namespace ShardQuery.Moments

section

variable {α : Type} [Arithmetic α]

/-- A summary of this many values, taken in one by one or merged from parts. -/
inductive Gathers : Nat → Moments α → Prop
  | empty : Gathers 0 empty
  | add {n m} (value : α) : Gathers n m → Gathers (n + 1) (m.add value)
  | merge {m n a b} : Gathers m a → Gathers n b → Gathers (m + n) (a.merge b)

variable {m n : Nat} {a b : Moments α}

theorem count_merge (a b : Moments α) : (a.merge b).count = a.count + b.count := by
  unfold merge
  split
  · rename_i ha
    rw [ha, UInt64.zero_add]
  · split
    · rename_i hb
      rw [hb, UInt64.add_zero]
    · split
      · exact UInt64.add_comm ..
      · rfl

theorem merge_of_count_eq_zero (h : b.count = 0) (hempty : a.count = 0 → a = b) :
    a.merge b = a := by
  by_cases ha : a.count = 0
  · rw [merge, if_pos ha, hempty ha]
  · rw [merge, if_neg ha, if_pos h]

namespace Gathers

/-- As long as the count does not leave its word it is exact, and zero only at the start. -/
theorem counts (h : Gathers n a) (hn : n < 2 ^ 64) :
    a.count.toNat = n ∧ (n = 0 → a = Moments.empty) := by
  induction h with
  | empty => exact ⟨rfl, fun _ => rfl⟩
  | @add n m value _ ih =>
    obtain ⟨hcount, -⟩ := ih (Nat.lt_of_succ_lt hn)
    refine ⟨?_, fun h => absurd h n.succ_ne_zero⟩
    change (m.count + 1).toNat = n + 1
    rw [UInt64.toNat_add, hcount]
    exact Nat.mod_eq_of_lt hn
  | @merge m n a b _ _ iha ihb =>
    obtain ⟨ha, haempty⟩ := iha (Nat.lt_of_le_of_lt (Nat.le_add_right m n) hn)
    obtain ⟨hb, hbempty⟩ := ihb (Nat.lt_of_le_of_lt (Nat.le_add_left n m) hn)
    constructor
    · rw [count_merge, UInt64.toNat_add, ha, hb]
      exact Nat.mod_eq_of_lt hn
    · intro hzero
      obtain ⟨hm, hn⟩ := Nat.add_eq_zero_iff.mp hzero
      rw [haempty hm, hbempty hn]
      rfl

theorem eq_empty (h : Gathers n a) (hn : n < 2 ^ 64) (hcount : a.count = 0) :
    a = Moments.empty := by
  obtain ⟨hn, hempty⟩ := h.counts hn
  rw [hcount] at hn
  exact hempty hn.symm

end Gathers

-- ---------------------------------------------------------------------------
-- The order of summaries
-- ---------------------------------------------------------------------------

theorem eq_of_order [Std.LawfulEqCmp (Arithmetic.order (α := α))] {a b : Moments α}
    (h : a.order b = .eq) : a = b := by
  simp only [order, Ordering.then_eq_eq] at h
  obtain ⟨hcount, hmean, hdeviation⟩ := h
  exact (Moments.mk.injEq ..).mpr ⟨Std.LawfulEqOrd.eq_of_compare hcount,
    Std.LawfulEqCmp.eq_of_compare hmean, Std.LawfulEqCmp.eq_of_compare hdeviation⟩

variable [Std.OrientedCmp (Arithmetic.order (α := α))]

theorem order_swap (a b : Moments α) : b.order a = (a.order b).swap := by
  have hswap {x y : α} : Arithmetic.order x y = (Arithmetic.order y x).swap :=
    Std.OrientedCmp.eq_swap
  rw [order, order, Ordering.swap_then, Ordering.swap_then, ← hswap, ← hswap,
    ← Std.OrientedOrd.eq_swap]

variable [Std.LawfulEqCmp (Arithmetic.order (α := α))]

theorem merge_comm_of_ne_zero {a b : Moments α} (ha : a.count ≠ 0) (hb : b.count ≠ 0) :
    a.merge b = b.merge a := by
  simp only [merge, ha, hb, ↓reduceIte, order_swap a b]
  cases h : a.order b with
  | lt => rfl
  | gt => rfl
  | eq =>
    rw [eq_of_order h]
    rfl

theorem Gathers.merge_comm (ha : Gathers m a) (hb : Gathers n b) (h : m + n < 2 ^ 64) :
    a.merge b = b.merge a := by
  have haempty := ha.eq_empty (Nat.lt_of_le_of_lt (Nat.le_add_right m n) h)
  have hbempty := hb.eq_empty (Nat.lt_of_le_of_lt (Nat.le_add_left n m) h)
  by_cases ha0 : a.count = 0
  · rw [haempty ha0, merge_of_count_eq_zero rfl hbempty]
    rfl
  by_cases hb0 : b.count = 0
  · rw [hbempty hb0, merge_of_count_eq_zero rfl haempty]
    rfl
  exact merge_comm_of_ne_zero ha0 hb0

end

/-- Two summaries of doubles have the same count, mean and deviation bit for bit whichever way they
are merged. The five operations may be any functions; only the order is that of the bits. -/
theorem merge_bitwise_comm [Arithmetic Double] {m n : Nat} {a b : Moments Double}
    (horder : ∀ x y : Double, Arithmetic.order x y = compare x.bits y.bits)
    (ha : Gathers m a) (hb : Gathers n b) (h : m + n < 2 ^ 64) : a.merge b = b.merge a := by
  have horiented : Std.OrientedCmp (Arithmetic.order (α := Double)) :=
    ⟨fun {x y} => by rw [horder, horder, Std.OrientedOrd.eq_swap]⟩
  have hlawful : Std.LawfulEqCmp (Arithmetic.order (α := Double)) :=
    { compare_self := fun {x} => by rw [horder, Std.ReflOrd.compare_self]
      eq_of_compare := fun {x y} hxy => by
        rw [horder] at hxy
        exact Double.ext_bits (congrArg UInt64.toNat (Std.LawfulEqOrd.eq_of_compare hxy)) }
  exact ha.merge_comm hb h

/-- A NaN, an infinity and a negative zero among the values, under the arithmetic of doubles. -/
theorem merge_bitwise_comm_nan :
    let a : Moments Double := empty.add ⟨0x7ff8000000000001⟩
    let b : Moments Double := (empty.add ⟨0x7ff0000000000000⟩).add ⟨0x8000000000000000⟩
    (∀ x y : Double, Arithmetic.order x y = compare x.bits y.bits) ∧ Gathers 1 a ∧ Gathers 2 b ∧
      1 + 2 < 2 ^ 64 ∧ a.merge b = b.merge a := by
  intro a b
  have horder (x y : Double) : Arithmetic.order x y = compare x.bits y.bits := rfl
  have ha : Gathers 1 a := .add _ .empty
  have hb : Gathers 2 b := .add _ (.add _ .empty)
  exact ⟨horder, ha, hb, by decide, merge_bitwise_comm horder ha hb (by decide)⟩

end ShardQuery.Moments
