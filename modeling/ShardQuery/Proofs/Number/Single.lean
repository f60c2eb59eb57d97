import Mathlib.Data.Nat.Log
import Mathlib.Tactic.Ring
import ShardQuery.Number.Single
/-!
# Singles among the doubles

A single that is a number loses nothing when it becomes a double. The rank of a
double tells any two of them apart.
-/

namespace ShardQuery

-- ---------------------------------------------------------------------------
-- Doubles
-- ---------------------------------------------------------------------------

namespace Double

theorem ext_bits {x y : Double} (h : x.bits.toNat = y.bits.toNat) : x = y := by
  cases x
  cases y
  exact congrArg mk (UInt64.toNat_inj.mp h)

theorem rank_injective {x y : Double} (h : x.rank = y.rank) : x = y := by
  apply ext_bits
  have hx := x.bits.toNat_lt
  have hy := y.bits.toNat_lt
  simp only [rank, isNegative, magnitude, decide_eq_true_eq] at h
  split at h <;> split at h <;> omega

theorem ofMagnitude_injective {s t : Bool} {m n : Nat} (hm : m < 0x8000000000000000)
    (hn : n < 0x8000000000000000) (h : ofMagnitude s m = ofMagnitude t n) : s = t ∧ m = n := by
  have hbits := congrArg (·.bits.toNat) h
  simp only [ofMagnitude, UInt64.toNat_ofNat'] at hbits
  cases s <;> cases t <;> simp only [Bool.false_eq_true, ↓reduceIte] at hbits <;>
    simp only [true_and, reduceCtorEq, false_and] <;> omega

end Double

-- ---------------------------------------------------------------------------
-- Singles
-- ---------------------------------------------------------------------------

namespace Single

theorem ext_bits {x y : Single} (h : x.bits.toNat = y.bits.toNat) : x = y := by
  cases x
  cases y
  exact congrArg mk (UInt32.toNat_inj.mp h)

theorem ext_magnitude {x y : Single} (hs : x.isNegative = y.isNegative)
    (hm : x.magnitude = y.magnitude) : x = y := by
  apply ext_bits
  have hx := x.bits.toNat_lt
  have hy := y.bits.toNat_lt
  simp only [isNegative, magnitude, decide_eq_decide] at hs hm
  omega

def widened (magnitude : Nat) : Nat :=
  let (m, e) := Format.single.parts magnitude
  Format.double.round m e

theorem scaled_bounds {m : Nat} (hm : m ≠ 0) (hlog : m.log2 ≤ 52) :
    2 ^ 52 ≤ m * 2 ^ (52 - m.log2) ∧ m * 2 ^ (52 - m.log2) < 2 ^ 53 := by
  have hlow : 2 ^ m.log2 * 2 ^ (52 - m.log2) ≤ m * 2 ^ (52 - m.log2) :=
    Nat.mul_le_mul_right _ (Nat.log2_self_le hm)
  have hhigh : m * 2 ^ (52 - m.log2) < 2 ^ (m.log2 + 1) * 2 ^ (52 - m.log2) :=
    Nat.mul_lt_mul_of_pos_right Nat.lt_log2_self (Nat.two_pow_pos _)
  rw [← pow_add, show m.log2 + (52 - m.log2) = 52 by omega] at hlow
  rw [← pow_add, show m.log2 + 1 + (52 - m.log2) = 53 by omega] at hhigh
  exact ⟨hlow, hhigh⟩

/-- A significand of at most twenty-four bits is kept as it is. -/
theorem double_round_exact {m : Nat} {e : Int} (hm : m ≠ 0) (hlog : m.log2 ≤ 23) (he : -149 ≤ e)
    (hle : e ≤ 104) :
    Format.double.round m e = (e + 1022 + m.log2).toNat * 2 ^ 52 + m * 2 ^ (52 - m.log2) := by
  have hlast : max (-1074) (e + m.log2 - 52) = e + m.log2 - 52 := by omega
  have hexact : e + m.log2 - 52 ≤ e := by omega
  have hshift : (e - (e + m.log2 - 52)).toNat = 52 - m.log2 := by omega
  have hfield : (e + m.log2 - 52 - -1074).toNat = (e + 1022 + m.log2).toNat := by omega
  have hfinite : (e + 1022 + m.log2).toNat * 2 ^ 52 + m * 2 ^ (52 - m.log2) ≤
      0x7ff0000000000000 := by
    have hbounds := scaled_bounds hm (hlog.trans (by decide))
    omega
  simp only [Format.round, Format.double, Nat.cast_ofNat, hm, ↓reduceIte, hlast, hexact, hshift,
    hfield, Nat.shiftLeft_eq]
  exact Nat.min_eq_left hfinite

theorem widened_subnormal {u : Nat} (hu : u ≠ 0) (h : u < 0x800000) :
    widened u = (873 + u.log2) * 2 ^ 52 + u * 2 ^ (52 - u.log2) := by
  have hlog : u.log2 < 23 := (Nat.log2_lt hu).mpr h
  have hparts : Format.single.parts u = (u, -149) := by
    have hfield : u / 2 ^ 23 = 0 := Nat.div_eq_of_lt h
    have hfraction : u % 2 ^ 23 = u := Nat.mod_eq_of_lt h
    simp only [Format.parts, Format.single, Nat.shiftRight_eq_div_pow, Nat.shiftLeft_eq, one_mul,
      hfield, hfraction, ↓reduceIte]
  have hfield : (-149 + 1022 + (u.log2 : Int)).toNat = 873 + u.log2 := by omega
  simp only [widened, hparts]
  rw [double_round_exact hu hlog.le (by decide) (by decide), hfield]

theorem widened_normal {u : Nat} (hlow : 0x800000 ≤ u) (h : u < 0x7f800000) :
    widened u = 896 * 2 ^ 52 + u * 2 ^ 29 := by
  have hfield : u / 2 ^ 23 ≠ 0 := by omega
  have hparts :
      Format.single.parts u = (2 ^ 23 + u % 2 ^ 23, ((u / 2 ^ 23 : Nat) : Int) - 150) := by
    simp only [Format.parts, Format.single, Nat.shiftRight_eq_div_pow, Nat.shiftLeft_eq, one_mul,
      hfield, ↓reduceIte, Prod.mk.injEq, true_and]
    omega
  have hlog : (2 ^ 23 + u % 2 ^ 23).log2 = 23 := by
    rw [Nat.log2_eq_iff (by omega)]
    omega
  simp only [widened, hparts]
  rw [double_round_exact (by omega) hlog.le (by omega) (by omega), hlog]
  omega

theorem widened_subnormal_bounds {u : Nat} (hu : u ≠ 0) (h : u < 0x800000) :
    (874 + u.log2) * 2 ^ 52 ≤ widened u ∧ widened u < (875 + u.log2) * 2 ^ 52 := by
  have hlog : u.log2 < 23 := (Nat.log2_lt hu).mpr h
  have hbounds := scaled_bounds hu (hlog.le.trans (by decide))
  rw [widened_subnormal hu h]
  omega

theorem widened_lt {u v : Nat} (h : u < v) (hv : v < 0x7f800000) : widened u < widened v := by
  rcases Nat.eq_zero_or_pos u with rfl | hu
  · have hzero : widened 0 = 0 := by decide
    rw [hzero]
    by_cases hlow : v < 0x800000
    · have hbounds := widened_subnormal_bounds h.ne' hlow
      omega
    · rw [widened_normal (Nat.le_of_not_lt hlow) hv]
      omega
  by_cases hlow : v < 0x800000
  · have hlog : u.log2 ≤ v.log2 :=
      (Nat.le_log2 (by omega)).mpr ((Nat.log2_self_le hu.ne').trans h.le)
    rcases hlog.lt_or_eq with hlog | hlog
    · have hu := widened_subnormal_bounds hu.ne' (h.trans hlow)
      have hv := widened_subnormal_bounds (by omega : v ≠ 0) hlow
      omega
    · rw [widened_subnormal hu.ne' (h.trans hlow), widened_subnormal (by omega) hlow, hlog]
      have hscaled := Nat.mul_lt_mul_of_pos_right h (Nat.two_pow_pos (52 - v.log2))
      omega
  · rw [widened_normal (Nat.le_of_not_lt hlow) hv]
    by_cases hulow : u < 0x800000
    · have hlog : u.log2 < 23 := (Nat.log2_lt hu.ne').mpr hulow
      have hbounds := widened_subnormal_bounds hu.ne' hulow
      omega
    · rw [widened_normal (Nat.le_of_not_lt hulow) (h.trans hv)]
      omega

theorem widened_lt_infinity {u : Nat} (h : u < 0x7f800000) : widened u < 0x7ff0000000000000 := by
  have hlast : widened 0x7f7fffff = 896 * 2 ^ 52 + 0x7f7fffff * 2 ^ 29 :=
    widened_normal (by decide) (by decide)
  have hle : u ≤ 0x7f7fffff := Nat.le_of_lt_succ h
  rcases hle.lt_or_eq with hlt | rfl
  · have hbelow := widened_lt hlt (by decide)
    omega
  · omega

theorem widened_injective {u v : Nat} (hu : u < 0x7f800000) (hv : v < 0x7f800000)
    (h : widened u = widened v) : u = v := by
  rcases Nat.lt_trichotomy u v with hlt | heq | hlt
  · exact absurd h (widened_lt hlt hv).ne
  · exact heq
  · exact absurd h (widened_lt hlt hu).ne'

def doubled (x : Single) : Nat :=
  if x.isInfinite then 0x7ff0000000000000 else widened x.magnitude

theorem toDouble_eq {x : Single} (hx : x.isNaN = false) :
    x.toDouble = Double.ofMagnitude x.isNegative (doubled x) := by
  simp only [toDouble, hx, Bool.false_eq_true, ↓reduceIte, doubled]
  split <;> rfl

theorem lt_infinity {x : Single} (hx : x.isNaN = false) (hi : x.isInfinite = false) :
    x.magnitude < 0x7f800000 := by
  simp only [isNaN, decide_eq_false_iff_not, isInfinite, beq_eq_false_iff_ne] at hx hi
  omega

theorem doubled_le {x : Single} (hx : x.isNaN = false) : doubled x ≤ 0x7ff0000000000000 := by
  unfold doubled
  split
  · exact le_rfl
  · rename_i hi
    exact (widened_lt_infinity (lt_infinity hx (Bool.not_eq_true _ ▸ hi))).le

theorem doubled_injective {x y : Single} (hx : x.isNaN = false) (hy : y.isNaN = false)
    (h : doubled x = doubled y) : x.magnitude = y.magnitude := by
  unfold doubled at h
  cases hxi : x.isInfinite <;> cases hyi : y.isInfinite <;>
    simp only [hxi, hyi, Bool.false_eq_true, ↓reduceIte] at h
  · exact widened_injective (lt_infinity hx hxi) (lt_infinity hy hyi) h
  · exact absurd h (widened_lt_infinity (lt_infinity hx hxi)).ne
  · exact absurd h.symm (widened_lt_infinity (lt_infinity hy hyi)).ne
  · exact (beq_iff_eq.mp hxi).trans (beq_iff_eq.mp hyi).symm

theorem toDouble_injective {x y : Single} (hx : x.isNaN = false) (hy : y.isNaN = false)
    (h : x.toDouble = y.toDouble) : x = y := by
  rw [toDouble_eq hx, toDouble_eq hy] at h
  have hxle := doubled_le hx
  have hyle := doubled_le hy
  obtain ⟨hsign, hmagnitude⟩ := Double.ofMagnitude_injective (by omega) (by omega) h
  exact ext_magnitude hsign (doubled_injective hx hy hmagnitude)

end Single

end ShardQuery
