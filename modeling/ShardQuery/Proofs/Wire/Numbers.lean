import Mathlib.Algebra.Group.Nat.Defs
import ShardQuery.Proofs.Wire.Reading
/-!
# Numbers as bytes

The digits of a varint, the folding of signed words, and little-endian words. A
number may be spelled with more digits than it needs, as long as there are no more
than ten.
-/

namespace ShardQuery.Wire

-- ---------------------------------------------------------------------------
-- Digits
-- ---------------------------------------------------------------------------

/-- Seven bits a byte, the lowest first. Every byte but the last has its top bit set. -/
inductive Digits : Grammar Nat
  | last {b} : b.toNat < 128 → Digits [b] b.toNat
  | more {b rest n} : 128 ≤ b.toNat → Digits rest n → Digits (b :: rest) (b.toNat % 128 + 128 * n)

/-- At most ten digits, for a number that fits a word. -/
structure Varint (bytes : List UInt8) (n : Nat) : Prop where
  digits : Digits bytes n
  length_le : bytes.length ≤ 10
  lt : n < 2 ^ 64

namespace Digits

variable {bytes : List UInt8} {n : Nat}

theorem length_pos (h : Digits bytes n) : 0 < bytes.length := by
  cases h <;> simp

theorem varint (n : Nat) : Digits (varint n) n := by
  fun_induction Wire.varint with
  | case1 n hn =>
    have hb : (UInt8.ofNat n).toNat = n := UInt8.toNat_ofNat_of_lt' (by simp [UInt8.size]; omega)
    have h : Digits [UInt8.ofNat n] (UInt8.ofNat n).toNat := .last (by omega)
    rwa [hb] at h
  | case2 n hn ih =>
    have hb : (UInt8.ofNat (n % 128 + 128)).toNat = n % 128 + 128 :=
      UInt8.toNat_ofNat_of_lt' (by simp [UInt8.size]; omega)
    have h := Digits.more (b := UInt8.ofNat (n % 128 + 128)) (by omega) ih
    rw [hb] at h
    have hn : (n % 128 + 128) % 128 + 128 * (n / 128) = n := by omega
    rwa [hn] at h

end Digits

theorem length_varint_le {k n : Nat} (h : n < 128 ^ (k + 1)) : (varint n).length ≤ k + 1 := by
  induction k generalizing n with
  | zero =>
    rw [varint, if_pos (by omega)]
    simp
  | succ k ih =>
    rw [varint]
    split
    · simp
    · have hlt : n / 128 < 128 ^ (k + 1) := by
        rw [Nat.div_lt_iff_lt_mul (by omega), ← Nat.pow_succ]
        exact h
      have := ih hlt
      rw [List.length_cons]
      omega

theorem Varint.varint {n : Nat} (h : n < 2 ^ 64) : Varint (varint n) n where
  digits := .varint n
  length_le := length_varint_le (k := 9) (by omega)
  lt := h

-- ---------------------------------------------------------------------------
-- Signed words
-- ---------------------------------------------------------------------------

theorem toNat_zigzag (n : Int64) :
    (zigzag n).toNat = (if 0 ≤ n.toInt then 2 * n.toInt else -2 * n.toInt - 1).toNat := by
  have := n.toInt_lt
  have := n.le_toInt
  rw [zigzag, UInt64.toNat_ofNat']
  split <;> omega

/-- Even numbers stand for 0, 1, 2, … and odd ones for -1, -2, … -/
def signed (n : Nat) : Int := if n % 2 = 0 then n / 2 else -(n / 2) - 1

theorem toInt_unzigzag (n : UInt64) : (unzigzag n).toInt = signed n.toNat := by
  have := n.toNat_lt
  rw [signed, unzigzag, Int64.toInt_ofInt_of_le (by split <;> omega) (by split <;> omega)]

theorem unzigzag_zigzag (n : Int64) : unzigzag (zigzag n) = n := by
  have := n.toInt_lt
  have := n.le_toInt
  have hz := toNat_zigzag n
  apply Int64.toInt_inj.mp
  rw [toInt_unzigzag, signed]
  split at hz <;> split <;> omega

theorem zigzag_unzigzag (n : UInt64) : zigzag (unzigzag n) = n := by
  apply UInt64.toNat_inj.mp
  rw [toNat_zigzag, toInt_unzigzag, signed]
  split <;> split <;> omega

-- ---------------------------------------------------------------------------
-- Little-endian words
-- ---------------------------------------------------------------------------

section

open Reader

theorem ofLittleEndian_littleEndian (count n : Nat) :
    ofLittleEndian (littleEndian count n) = n % 256 ^ count := by
  induction count generalizing n with
  | zero => simp [littleEndian, ofLittleEndian, Nat.mod_one]
  | succ count ih =>
    rw [littleEndian, ofLittleEndian, ih, UInt8.toNat_ofNat', Nat.pow_succ 256,
      Nat.mul_comm (256 ^ count), Nat.mod_mul]

theorem littleEndian_injective {count m n : Nat} (hm : m < 256 ^ count) (hn : n < 256 ^ count)
    (h : littleEndian count m = littleEndian count n) : m = n := by
  rw [← Nat.mod_eq_of_lt hm, ← ofLittleEndian_littleEndian, h, ofLittleEndian_littleEndian,
    Nat.mod_eq_of_lt hn]

theorem littleEndian_ofLittleEndian (bytes : List UInt8) :
    littleEndian bytes.length (ofLittleEndian bytes) = bytes := by
  induction bytes with
  | nil => rfl
  | cons b bytes ih =>
    have := b.toNat_lt
    have hb : UInt8.ofNat (b.toNat + 256 * ofLittleEndian bytes) = b := by
      apply UInt8.toNat_inj.mp
      rw [UInt8.toNat_ofNat']
      omega
    have hrest : (b.toNat + 256 * ofLittleEndian bytes) / 256 = ofLittleEndian bytes := by omega
    rw [ofLittleEndian, List.length_cons, littleEndian, hb, hrest, ih]

@[simp] theorem length_littleEndian (count n : Nat) : (littleEndian count n).length = count := by
  induction count generalizing n with
  | zero => rfl
  | succ count ih => rw [littleEndian, List.length_cons, ih]

theorem ofLittleEndian_lt (bytes : List UInt8) : ofLittleEndian bytes < 256 ^ bytes.length := by
  rw [← littleEndian_ofLittleEndian bytes, length_littleEndian, ofLittleEndian_littleEndian]
  exact Nat.mod_lt _ (Nat.pow_pos (by omega))

end

end ShardQuery.Wire
