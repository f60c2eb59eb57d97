import Mathlib.Algebra.Group.Nat.Defs
import Mathlib.Data.List.GetD
import ShardQuery.Job.Request
/-!
# Bitmaps of nulls

Which bit of which byte tells whether a value is null: eight bits a byte, the lowest
first, and zeros behind the last one.
-/

namespace ShardQuery.Request

/-- The bit at an index; there are only zeros behind the last byte. -/
def bitAt (bitmap : List UInt8) (i : Nat) : Bool := (bitmap.getD (i / 8) 0).toNat.testBit (i % 8)

/-- As few bytes as hold the bits, and only zeros behind those. -/
structure Bitmap (bytes : List UInt8) (bits : List Bool) : Prop where
  length : bytes.length = bitmapLength bits.length
  bit : ∀ i, bitAt bytes i = bits.getD i false

variable {bytes : List UInt8} {bits : List Bool}

-- ---------------------------------------------------------------------------
-- Unpacking
-- ---------------------------------------------------------------------------

theorem length_bitsOfByte (b : UInt8) : (bitsOfByte b).length = 8 := by
  simp [bitsOfByte]

theorem length_flatMap_bitsOfByte (bytes : List UInt8) :
    (bytes.flatMap bitsOfByte).length = 8 * bytes.length := by
  induction bytes with
  | nil => rfl
  | cons b bytes ih =>
    rw [List.flatMap_cons, List.length_append, length_bitsOfByte, ih, List.length_cons]
    omega

theorem bitAt_cons_of_lt {b : UInt8} {i : Nat} (h : i < 8) :
    bitAt (b :: bytes) i = b.toNat.testBit i := by
  rw [bitAt, Nat.div_eq_of_lt h, Nat.mod_eq_of_lt h]
  rfl

theorem bitAt_cons_add {b : UInt8} (i : Nat) : bitAt (b :: bytes) (i + 8) = bitAt bytes i := by
  rw [bitAt, Nat.add_div_right i (by decide), Nat.add_mod_right]
  rfl

theorem getD_flatMap_bitsOfByte (bytes : List UInt8) (i : Nat) :
    (bytes.flatMap bitsOfByte).getD i false = bitAt bytes i := by
  induction bytes generalizing i with
  | nil => simp [bitAt]
  | cons b bytes ih =>
    rw [List.flatMap_cons]
    by_cases hi : i < 8
    · rw [List.getD_append _ _ _ _ (by rwa [length_bitsOfByte]), bitAt_cons_of_lt hi]
      simp [bitsOfByte, hi]
    · obtain ⟨i, rfl⟩ := Nat.exists_eq_add_of_le' (Nat.le_of_not_lt hi)
      rw [List.getD_append_right _ _ _ _ (by rw [length_bitsOfByte]; omega), length_bitsOfByte,
        Nat.add_sub_cancel, ih, bitAt_cons_add]

theorem getD_false_of_not_mem {xs : List Bool} (h : true ∉ xs) (i : Nat) :
    xs.getD i false = false := by
  rcases Nat.lt_or_ge i xs.length with hi | hi
  · rw [List.getD_eq_getElem _ _ hi]
    have hne : xs[i] ≠ true := fun he => h (he ▸ List.getElem_mem hi)
    simpa using hne
  · exact List.getD_eq_default _ _ hi

/-- The two checks that a reader makes of a bitmap: its length, and that only zeros lie behind
the bits that it takes. -/
theorem bitmap_iff_unpacked {columns : Nat} (hlen : bytes.length = bitmapLength columns) :
    Bitmap bytes bits ∧ bits.length = columns ↔
      bits = (bytes.flatMap bitsOfByte).take columns ∧
        true ∉ (bytes.flatMap bitsOfByte).drop columns := by
  have hflat := length_flatMap_bitsOfByte bytes
  have hget := getD_flatMap_bitsOfByte bytes
  rw [hlen, bitmapLength] at hflat
  generalize bytes.flatMap bitsOfByte = flat at hflat hget
  constructor
  · rintro ⟨⟨-, hbit⟩, rfl⟩
    constructor
    · refine List.ext_getElem (by rw [List.length_take]; omega) fun i hi hi' => ?_
      rw [← List.getD_eq_getElem _ false hi, ← hbit, ← hget, List.getElem_take,
        List.getD_eq_getElem]
    · intro hmem
      obtain ⟨i, hi, he⟩ := List.getElem_of_mem hmem
      rw [List.getElem_drop, ← List.getD_eq_getElem _ false, hget, hbit,
        List.getD_eq_default _ _ (Nat.le_add_right ..)] at he
      cases he
  · rintro ⟨rfl, hpad⟩
    have hcol : (flat.take columns).length = columns := by
      rw [List.length_take]
      omega
    refine ⟨⟨by rw [hlen, hcol], fun i => ?_⟩, hcol⟩
    have hsplit : flat.getD i false = (flat.take columns ++ flat.drop columns).getD i false := by
      rw [List.take_append_drop]
    rw [← hget, hsplit]
    rcases Nat.lt_or_ge i (flat.take columns).length with hi | hi
    · rw [List.getD_append _ _ _ _ hi]
    · rw [List.getD_append_right _ _ _ _ hi, getD_false_of_not_mem hpad,
        List.getD_eq_default _ _ hi]

-- ---------------------------------------------------------------------------
-- Packing
-- ---------------------------------------------------------------------------

theorem foldr_bits_lt (bits : List Bool) :
    bits.foldr (fun bit n => 2 * n + bit.toNat) 0 < 2 ^ bits.length := by
  induction bits with
  | nil => decide
  | cons bit bits ih =>
    have := bit.toNat_le
    rw [List.foldr_cons, List.length_cons, Nat.pow_succ]
    omega

theorem testBit_foldr_bits (bits : List Bool) (i : Nat) :
    (bits.foldr (fun (bit : Bool) n => 2 * n + bit.toNat) 0).testBit i = bits.getD i false := by
  induction bits generalizing i with
  | nil => simp
  | cons bit bits ih =>
    rw [List.foldr_cons]
    cases i with
    | zero => cases bit <;> simp
    | succ i =>
      have := bit.toNat_lt
      rw [Nat.testBit_succ, List.getD_cons_succ, ← ih, Nat.mul_add_div (by decide),
        Nat.div_eq_of_lt this, Nat.add_zero]

theorem testBit_byteOfBits (h : bits.length ≤ 8) (i : Nat) :
    (byteOfBits bits).toNat.testBit i = bits.getD i false := by
  have hlt := Nat.lt_of_lt_of_le (foldr_bits_lt bits) (Nat.pow_le_pow_right (by decide) h)
  rw [byteOfBits, UInt8.toNat_ofNat_of_lt' hlt, testBit_foldr_bits]

theorem Bitmap.packBits (bits : List Bool) : Bitmap (packBits bits) bits := by
  fun_induction Request.packBits with
  | case1 => exact ⟨rfl, fun i => by simp [bitAt]⟩
  | case2 bit bits ih =>
    constructor
    · have := ih.length
      rw [bitmapLength, List.length_drop] at this
      rw [List.length_cons, bitmapLength, List.length_cons]
      omega
    · intro i
      have htake : (bit :: bits.take 7).length ≤ 8 := by
        rw [List.length_cons, List.length_take]
        omega
      by_cases hi : i < 8
      · rw [bitAt_cons_of_lt hi, testBit_byteOfBits htake]
        cases i with
        | zero => rfl
        | succ i =>
          rw [List.getD_cons_succ, List.getD_cons_succ, List.getD_eq_getElem?_getD,
            List.getElem?_take_of_lt (Nat.lt_of_succ_lt_succ hi), List.getD_eq_getElem?_getD]
      · obtain ⟨i, rfl⟩ := Nat.exists_eq_add_of_le' (Nat.le_of_not_lt hi)
        rw [bitAt_cons_add, ih.bit]
        simp [Nat.add_comm]

end ShardQuery.Request
