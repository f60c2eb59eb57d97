import Mathlib.Data.Nat.Log
import Mathlib.Tactic.Ring
import ShardQuery.Number.Double
/-!
# Rounding keeps the order

The greater of two numbers is never rounded to the smaller result. It may be rounded
to the same one: not every integer of sixty-four bits is a double.
-/

namespace ShardQuery

namespace Format

-- ---------------------------------------------------------------------------
-- Dropping bits
-- ---------------------------------------------------------------------------

theorem shiftRight_le_dropBits (m count : Nat) : m >>> count ≤ dropBits m count := by
  unfold dropBits
  dsimp only
  split <;> omega

theorem dropBits_le (m count : Nat) : dropBits m count ≤ m >>> count + 1 := by
  unfold dropBits
  dsimp only
  split <;> omega

theorem dropBits_mono {m n : Nat} (count : Nat) (h : m ≤ n) :
    dropBits m count ≤ dropBits n count := by
  have hquotient : m >>> count ≤ n >>> count := by
    rw [Nat.shiftRight_eq_div_pow, Nat.shiftRight_eq_div_pow]
    exact Nat.div_le_div_right h
  rcases hquotient.lt_or_eq with hlt | heq
  · exact (dropBits_le m count).trans (hlt.trans_le (shiftRight_le_dropBits n count))
  · -- what the lesser number leaves over is not more, so it is rounded up only if both are
    have hrest : m % 1 <<< count ≤ n % 1 <<< count := by
      have hm := Nat.div_add_mod m (2 ^ count)
      have hn := Nat.div_add_mod n (2 ^ count)
      rw [Nat.shiftRight_eq_div_pow, Nat.shiftRight_eq_div_pow] at heq
      rw [Nat.shiftLeft_eq, one_mul]
      rw [heq] at hm
      omega
    unfold dropBits
    dsimp only
    rw [heq]
    split <;> split <;> omega

-- ---------------------------------------------------------------------------
-- Rounding
-- ---------------------------------------------------------------------------

variable {format : Format} {m n : Nat} {e last : Int}

def lastBit (format : Format) (m : Nat) (e : Int) : Int :=
  max format.least (e + m.log2 - format.fraction)

def significand (m : Nat) (e last : Int) : Nat :=
  if last ≤ e then m <<< (e - last).toNat else dropBits m (last - e).toNat

theorem round_eq (hm : m ≠ 0) :
    format.round m e = min ((format.lastBit m e - format.least).toNat <<< format.fraction +
      significand m e (format.lastBit m e)) format.infinity := by
  rw [round, if_neg hm]
  rfl

theorem significand_mono (h : m ≤ n) : significand m e last ≤ significand n e last := by
  unfold significand
  split
  · rw [Nat.shiftLeft_eq, Nat.shiftLeft_eq]
    exact Nat.mul_le_mul_right _ h
  · exact dropBits_mono _ h

/-- A significand has at most one bit more than the format keeps behind the leading one, and
that only if it was rounded up to a power of two. -/
theorem significand_le (h : e + m.log2 - format.fraction ≤ last) :
    significand m e last ≤ 2 ^ (format.fraction + 1) := by
  unfold significand
  split
  · rw [Nat.shiftLeft_eq]
    calc m * 2 ^ (e - last).toNat
      _ ≤ 2 ^ (m.log2 + 1) * 2 ^ (e - last).toNat := Nat.mul_le_mul_right _ Nat.lt_log2_self.le
      _ = 2 ^ (m.log2 + 1 + (e - last).toNat) := (pow_add ..).symm
      _ ≤ 2 ^ (format.fraction + 1) := Nat.pow_le_pow_right Nat.two_pos (by omega)
  · have hlt : m >>> (last - e).toNat < 2 ^ (format.fraction + 1) := by
      rw [Nat.shiftRight_eq_div_pow, Nat.div_lt_iff_lt_mul (Nat.two_pow_pos _), ← pow_add]
      exact Nat.lt_log2_self.trans_le (Nat.pow_le_pow_right Nat.two_pos (by omega))
    exact (dropBits_le _ _).trans hlt

theorem le_significand (hm : m ≠ 0) (h : last = e + m.log2 - format.fraction) :
    2 ^ format.fraction ≤ significand m e last := by
  unfold significand
  split
  · rw [Nat.shiftLeft_eq]
    calc 2 ^ format.fraction
      _ = 2 ^ m.log2 * 2 ^ (e - last).toNat := by
        rw [← pow_add]
        congr 1
        omega
      _ ≤ m * 2 ^ (e - last).toNat := Nat.mul_le_mul_right _ (Nat.log2_self_le hm)
  · refine le_trans ?_ (shiftRight_le_dropBits _ _)
    rw [Nat.shiftRight_eq_div_pow, Nat.le_div_iff_mul_le (Nat.two_pow_pos _), ← pow_add]
    exact (Nat.pow_le_pow_right Nat.two_pos (by omega)).trans (Nat.log2_self_le hm)

theorem round_mono (h : m ≤ n) : format.round m e ≤ format.round n e := by
  rcases Nat.eq_zero_or_pos m with rfl | hm
  · exact Nat.zero_le _
  have hn : n ≠ 0 := by omega
  have hlog : m.log2 ≤ n.log2 := (Nat.le_log2 hn).mpr ((Nat.log2_self_le hm.ne').trans h)
  have hlast : format.lastBit m e ≤ format.lastBit n e := by
    unfold lastBit
    omega
  rw [round_eq hm.ne', round_eq hn, Nat.shiftLeft_eq, Nat.shiftLeft_eq]
  refine min_le_min_right _ ?_
  rcases hlast.lt_or_eq with hlt | heq
  · -- a carry out of the lesser significand reaches the next exponent at most
    have hnormal : format.lastBit n e = e + n.log2 - format.fraction := by
      unfold lastBit at hlt ⊢
      omega
    have hhigh : significand m e (format.lastBit m e) ≤ 2 ^ (format.fraction + 1) :=
      significand_le (le_max_right _ _)
    have hlow := le_significand hn hnormal
    have hleast : format.least ≤ format.lastBit m e := le_max_left _ _
    have hfield : (format.lastBit m e - format.least).toNat + 1 ≤
        (format.lastBit n e - format.least).toNat := by omega
    have hscaled := Nat.mul_le_mul_right (2 ^ format.fraction) hfield
    rw [add_mul] at hscaled
    rw [pow_succ] at hhigh
    omega
  · rw [heq]
    exact Nat.add_le_add_left (significand_mono h) _

theorem round_le_infinity : format.round m e ≤ format.infinity := by
  rcases Nat.eq_zero_or_pos m with rfl | hm
  · exact Nat.zero_le _
  · rw [round_eq hm.ne']
    exact min_le_right _ _

end Format

-- ---------------------------------------------------------------------------
-- Integers as doubles
-- ---------------------------------------------------------------------------

namespace Double

theorem rank_round (negative : Bool) (m : Nat) (e : Int) :
    (round negative m e).rank =
      if negative then -(Format.double.round m e : Int) - 1 else Format.double.round m e := by
  have hle : Format.double.round m e ≤ 0x7ff0000000000000 := Format.round_le_infinity
  cases negative with
  | true =>
    have hbits : (round true m e).bits.toNat = Format.double.round m e + 0x8000000000000000 := by
      simp only [round, ofMagnitude, ↓reduceIte, UInt64.toNat_ofNat']
      omega
    simp only [rank, isNegative, magnitude, hbits, ↓reduceIte, decide_eq_true_eq]
    omega
  | false =>
    have hbits : (round false m e).bits.toNat = Format.double.round m e := by
      simp only [round, ofMagnitude, Bool.false_eq_true, ↓reduceIte, UInt64.toNat_ofNat']
      omega
    simp only [rank, isNegative, magnitude, hbits, Bool.false_eq_true, ↓reduceIte,
      decide_eq_true_eq]
    omega

theorem rank_ofInt_mono {m n : Int} (h : m ≤ n) : (ofInt m).rank ≤ (ofInt n).rank := by
  have hmag (a b : Nat) (h : a ≤ b) :
      (Format.double.round a 0 : Int) ≤ (Format.double.round b 0 : Int) :=
    Int.ofNat_le.mpr (Format.round_mono h)
  rw [ofInt, ofInt, rank_round, rank_round]
  by_cases hn : n < 0
  · have hm : m < 0 := by omega
    have habs := hmag n.natAbs m.natAbs (by omega)
    simp only [hm, hn, decide_true, ↓reduceIte]
    omega
  · by_cases hm : m < 0
    · simp only [hm, hn, decide_true, decide_false, Bool.false_eq_true, ↓reduceIte]
      omega
    · have habs := hmag m.natAbs n.natAbs (by omega)
      simp only [hm, hn, decide_false, Bool.false_eq_true, ↓reduceIte]
      omega

end Double

end ShardQuery
