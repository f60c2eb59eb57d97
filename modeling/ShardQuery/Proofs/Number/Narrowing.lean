import ShardQuery.Json.Decode
import ShardQuery.Proofs.Number.Rounding
import ShardQuery.Proofs.Number.Single
/-!
# Back from doubles to singles

How a number is split into a significand and a power of two does not matter to
rounding, and a number that a format can hold is rounded to itself. So a single that
became a double is found again. What is narrowed is a number if it was one before.
-/

namespace ShardQuery

namespace Format

variable {format : Format}

-- ---------------------------------------------------------------------------
-- Significands with spare zeros
-- ---------------------------------------------------------------------------

theorem dropBits_zero (m : Nat) : dropBits m 0 = m := by
  simp [dropBits, Nat.mod_one]

theorem dropBits_shiftLeft (m count k : Nat) :
    dropBits (m <<< k) (count + k) = dropBits m count := by
  have hquotient : m <<< k >>> (count + k) = m >>> count := by
    rw [Nat.add_comm, Nat.shiftRight_add, Nat.shiftLeft_shiftRight]
  have hrest : m <<< k % 1 <<< (count + k) = (m % 1 <<< count) * 2 ^ k := by
    simp only [Nat.shiftLeft_eq, one_mul, pow_add]
    exact Nat.mul_mod_mul_right ..
  have hunit : 1 <<< (count + k) = 1 <<< count * 2 ^ k := by
    simp only [Nat.shiftLeft_eq, one_mul, pow_add]
  have hpos := Nat.two_pow_pos k
  simp only [dropBits, hquotient, hrest]
  simp only [hunit, ← mul_assoc, Nat.mul_lt_mul_right hpos, Nat.mul_left_inj hpos.ne']

theorem log2_shiftLeft {m : Nat} (hm : m ≠ 0) (k : Nat) : (m <<< k).log2 = m.log2 + k := by
  induction k with
  | zero => rfl
  | succ k ih =>
    have hshifted : m <<< k ≠ 0 := by simp [Nat.shiftLeft_eq, hm]
    rw [Nat.shiftLeft_succ, Nat.log2_two_mul hshifted, ih, Nat.add_assoc]

theorem significand_shiftLeft (m k : Nat) (e last : Int) :
    significand (m <<< k) (e - k) last = significand m e last := by
  unfold significand
  by_cases hshifted : last ≤ e - k
  · have hcount : k + (e - k - last).toNat = (e - last).toNat := by omega
    rw [if_pos hshifted, if_pos (by omega), ← Nat.shiftLeft_add, hcount]
  rw [if_neg hshifted]
  by_cases hlast : last ≤ e
  · -- only zeros are dropped
    have hcount : k = (e - last).toNat + (last - (e - k)).toNat := by omega
    generalize hdropped : (last - (e - k)).toNat = dropped at hcount
    have hzeros := dropBits_shiftLeft (m <<< (e - last).toNat) 0 dropped
    rw [dropBits_zero, Nat.zero_add, ← Nat.shiftLeft_add, ← hcount] at hzeros
    rw [if_pos hlast, hzeros]
  · have hcount : (last - (e - k)).toNat = (last - e).toNat + k := by omega
    rw [if_neg hlast, hcount, dropBits_shiftLeft]

theorem round_shiftLeft (m k : Nat) (e : Int) :
    format.round (m <<< k) (e - k) = format.round m e := by
  by_cases hm : m = 0
  · simp [hm, round]
  have hshifted : m <<< k ≠ 0 := by simp [Nat.shiftLeft_eq, hm]
  have hlast : format.lastBit (m <<< k) (e - k) = format.lastBit m e := by
    simp only [lastBit, log2_shiftLeft hm]
    omega
  rw [round_eq hm, round_eq hshifted, hlast, significand_shiftLeft]

-- ---------------------------------------------------------------------------
-- Numbers of the format
-- ---------------------------------------------------------------------------

theorem round_parts {u : Nat} (h : u ≤ format.infinity) :
    format.round (format.parts u).1 (format.parts u).2 = u := by
  have hsplit := Nat.div_add_mod u (2 ^ format.fraction)
  have hfraction : u % 2 ^ format.fraction < 2 ^ format.fraction :=
    Nat.mod_lt _ (Nat.two_pow_pos _)
  simp only [parts, Nat.shiftRight_eq_div_pow, Nat.shiftLeft_eq, one_mul]
  by_cases hfield : u / 2 ^ format.fraction = 0
  · -- below the least exponent with a leading bit
    have hu : u % 2 ^ format.fraction = u := by simpa [hfield] using hsplit
    by_cases hzero : u = 0
    · simp [hzero, round]
    have hlog : u.log2 < format.fraction := (Nat.log2_lt hzero).mpr (hu ▸ hfraction)
    have hlast : format.lastBit u format.least = format.least := by
      unfold lastBit
      omega
    simp only [hfield, ↓reduceIte, hu]
    rw [round_eq hzero, hlast]
    simpa [significand] using h
  · have hm : 2 ^ format.fraction + u % 2 ^ format.fraction ≠ 0 := by
      have := Nat.two_pow_pos format.fraction
      omega
    have hlog : (2 ^ format.fraction + u % 2 ^ format.fraction).log2 = format.fraction := by
      rw [Nat.log2_eq_iff hm, pow_succ]
      omega
    generalize u / 2 ^ format.fraction = field at hfield hsplit
    have hlast : format.lastBit (2 ^ format.fraction + u % 2 ^ format.fraction)
        (format.least + field - 1) = format.least + field - 1 := by
      simp only [lastBit, hlog]
      omega
    have hexponent : (format.least + field - 1 - format.least).toNat + 1 = field := by omega
    have hbits : (format.least + field - 1 - format.least).toNat * 2 ^ format.fraction +
        (2 ^ format.fraction + u % 2 ^ format.fraction) = u := by
      calc
        _ = ((format.least + field - 1 - format.least).toNat + 1) * 2 ^ format.fraction +
            u % 2 ^ format.fraction := by ring
        _ = u := by rw [hexponent, mul_comm, hsplit]
    simp only [hfield, ↓reduceIte]
    rw [round_eq hm, hlast]
    simpa [significand, Nat.shiftLeft_eq, hbits] using h

end Format

-- ---------------------------------------------------------------------------
-- Singles
-- ---------------------------------------------------------------------------

namespace Double

theorem magnitude_ofMagnitude {negative : Bool} {m : Nat} (hm : m < 0x8000000000000000) :
    (ofMagnitude negative m).magnitude = m := by
  cases negative <;> simp [magnitude, ofMagnitude] <;> omega

theorem isNegative_ofMagnitude {negative : Bool} {m : Nat} (hm : m < 0x8000000000000000) :
    (ofMagnitude negative m).isNegative = negative := by
  cases negative <;> simp [isNegative, ofMagnitude] <;> omega

theorem isNaN_of_isFinite {x : Double} (hx : x.isFinite = true) : x.isNaN = false := by
  simp only [isFinite, decide_eq_true_eq] at hx
  simp only [isNaN, decide_eq_false_iff_not]
  omega

end Double

namespace Single

theorem magnitude_ofMagnitude {negative : Bool} {m : Nat} (hm : m < 0x80000000) :
    (ofMagnitude negative m).magnitude = m := by
  cases negative <;> simp [magnitude, ofMagnitude] <;> omega

theorem isNegative_ofMagnitude {negative : Bool} {m : Nat} (hm : m < 0x80000000) :
    (ofMagnitude negative m).isNegative = negative := by
  cases negative <;> simp [isNegative, ofMagnitude] <;> omega

theorem parts_bounds {u : Nat} (hu : u ≠ 0) (h : u < 0x7f800000) :
    (Format.single.parts u).1 ≠ 0 ∧ (Format.single.parts u).1 < 2 ^ 24 ∧
      -149 ≤ (Format.single.parts u).2 ∧ (Format.single.parts u).2 ≤ 104 := by
  simp only [Format.parts, Format.single, Nat.shiftRight_eq_div_pow, Nat.shiftLeft_eq, one_mul]
  split <;> dsimp only <;> omega

theorem double_parts_round {m : Nat} {e : Int} (hm : m ≠ 0) (hlog : m.log2 ≤ 23) (he : -149 ≤ e)
    (hle : e ≤ 104) : Format.double.parts (Format.double.round m e) =
      (m <<< (52 - m.log2), e - (52 - m.log2 : Nat)) := by
  have hbounds := scaled_bounds hm (hlog.trans (by decide))
  rw [double_round_exact hm hlog he hle]
  simp only [Format.parts, Format.double, Nat.shiftRight_eq_div_pow, Nat.shiftLeft_eq, one_mul]
  generalize m * 2 ^ (52 - m.log2) = scaled at hbounds ⊢
  rw [if_neg (by omega), Prod.mk.injEq]
  omega

/-- The single that is nearest to a widened magnitude is the one it came from. -/
theorem round_widened {u : Nat} (h : u < 0x7f800000) :
    Format.single.round (Format.double.parts (widened u)).1 (Format.double.parts (widened u)).2 =
      u := by
  by_cases hu : u = 0
  · subst hu
    decide
  obtain ⟨hm, hlt, he, hle⟩ := parts_bounds hu h
  have hlog : (Format.single.parts u).1.log2 ≤ 23 := Nat.le_of_lt_succ ((Nat.log2_lt hm).mpr hlt)
  simp only [widened]
  rw [double_parts_round hm hlog he hle, Format.round_shiftLeft]
  exact Format.round_parts h.le

theorem ofDouble_toDouble {x : Single} (hx : x.isNaN = false) : ofDouble x.toDouble = x := by
  have hle := doubled_le hx
  have hmagnitude : (Double.ofMagnitude x.isNegative (doubled x)).magnitude = doubled x :=
    Double.magnitude_ofMagnitude (by omega)
  have hnegative : (Double.ofMagnitude x.isNegative (doubled x)).isNegative = x.isNegative :=
    Double.isNegative_ofMagnitude (by omega)
  rw [toDouble_eq hx]
  simp only [ofDouble, Double.isNaN, Double.isInfinite, Double.parts, hmagnitude, hnegative,
    decide_eq_true_eq, beq_iff_eq, if_neg (Nat.not_lt.mpr hle)]
  cases hi : x.isInfinite with
  | true =>
    have hx : x.magnitude = 0x7f800000 := beq_iff_eq.mp hi
    simp only [doubled, hi, ↓reduceIte]
    exact ext_magnitude (isNegative_ofMagnitude (by decide))
      ((magnitude_ofMagnitude (by decide)).trans hx.symm)
  | false =>
    have hlt := lt_infinity hx hi
    simp only [doubled, hi, Bool.false_eq_true, ↓reduceIte, (widened_lt_infinity hlt).ne, round,
      round_widened hlt]
    exact ext_magnitude (isNegative_ofMagnitude (by omega)) (magnitude_ofMagnitude (by omega))

theorem ofDouble_isNaN {x : Double} (hx : x.isNaN = false) : (ofDouble x).isNaN = false := by
  have hround (m : Nat) (e : Int) : Format.single.round m e ≤ 0x7f800000 :=
    Format.round_le_infinity
  simp only [ofDouble, hx, Bool.false_eq_true, ↓reduceIte]
  split
  · rw [isNaN, magnitude_ofMagnitude (by decide)]
    decide
  · have hle := hround x.parts.1 x.parts.2
    simpa [isNaN, round, magnitude_ofMagnitude (Nat.lt_of_le_of_lt hle (by decide))] using hle

theorem isFinite_toDouble {x : Single} (hx : x.isNaN = false) :
    x.toDouble.isFinite = !x.isInfinite := by
  have hle := doubled_le hx
  rw [toDouble_eq hx, Double.isFinite, Double.magnitude_ofMagnitude (by omega)]
  cases hi : x.isInfinite with
  | true => simp [doubled, hi]
  | false => simpa [doubled, hi] using widened_lt_infinity (lt_infinity hx hi)

end Single

-- ---------------------------------------------------------------------------
-- Integers
-- ---------------------------------------------------------------------------

theorem Double.isFinite_round {negative : Bool} {m : Nat} (hm : m ≤ 2 ^ 64) :
    (Double.round negative m 0).isFinite = true := by
  have hlt : Format.double.round m 0 < 0x7ff0000000000000 :=
    calc Format.double.round m 0
      _ ≤ Format.double.round (2 ^ 64) 0 := Format.round_mono hm
      _ < 0x7ff0000000000000 := by decide
  rw [Double.round, Double.isFinite, Double.magnitude_ofMagnitude (by omega)]
  simpa using hlt

theorem Json.isFinite_doubleOfInt (n : Int) : (Json.doubleOfInt n).isFinite = true := by
  unfold Json.doubleOfInt
  split
  · refine Double.isFinite_round ?_
    have hlow := (Int64.ofInt n).le_toInt
    have hhigh := (Int64.ofInt n).toInt_lt
    omega
  · exact Double.isFinite_round (UInt64.ofNat n.toNat).toNat_lt.le

end ShardQuery
