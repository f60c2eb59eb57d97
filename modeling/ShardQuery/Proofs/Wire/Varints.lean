import Mathlib.Algebra.BigOperators.Fin
import Mathlib.Data.Nat.Bitwise
import ShardQuery.Proofs.Wire.Readers
/-!
# Bytes that carry a number

Which bytes a number of variable length may be found in, said of each byte at its
place, and how a word takes in their bits. A number may have more digits than it needs.

`varints_found`: each of the readers finds a number exactly where the bytes in front of
it carry one that its words can hold, and fails with an error of serialization
everywhere else. Putting the digits into a word by shifts gives the same readers, so no
bit that was read is ever lost.
-/

namespace ShardQuery.Wire

-- ---------------------------------------------------------------------------
-- Bits of a byte
-- ---------------------------------------------------------------------------

theorem toNat_low_bits (b : UInt8) : (b &&& 0x7f).toNat = b.toNat % 128 := by
  rw [UInt8.toNat_and]
  exact Nat.and_two_pow_sub_one_eq_mod b.toNat 7

theorem top_bit_eq_zero {b : UInt8} : b &&& 0x80 = 0 ↔ b.toNat < 128 := by
  have hb := b.toNat_lt
  have htop : (b &&& 0x80).toNat = (b.toNat.testBit 7).toNat * 128 := by
    rw [UInt8.toNat_and]
    exact Nat.and_two_pow b.toNat 7
  rw [← UInt8.toNat_inj, htop, Nat.testBit_eq_decide_div_mod_eq]
  by_cases hset : b.toNat / 2 ^ 7 % 2 = 1
  · rw [decide_eq_true hset]
    refine iff_of_false (by decide) ?_
    omega
  · rw [decide_eq_false hset]
    refine iff_of_true rfl ?_
    omega

-- ---------------------------------------------------------------------------
-- Digits at their places
-- ---------------------------------------------------------------------------

def EndsOnce (bytes : List UInt8) : Prop :=
  ∀ i : Fin bytes.length, bytes[i] &&& 0x80 = 0 ↔ i + 1 = bytes.length

def digitSum (bytes : List UInt8) : Nat :=
  ∑ i : Fin bytes.length, (bytes[i] &&& 0x7f).toNat * 128 ^ (i : Nat)

/-- One to ten bytes that end once, and their sum, if a word of sixty-four bits can hold it. -/
structure Carries (bytes : List UInt8) (n : Nat) : Prop where
  length_pos : 1 ≤ bytes.length
  length_le : bytes.length ≤ 10
  ends : EndsOnce bytes
  sum : n = digitSum bytes
  lt : n < 2 ^ 64

variable {b : UInt8} {bytes rest : List UInt8} {n : Nat}

theorem endsOnce_cons : EndsOnce (b :: rest) ↔ (b.toNat < 128 ↔ rest = []) ∧ EndsOnce rest := by
  refine Fin.forall_fin_succ.trans (and_congr ?_ (forall_congr' fun i => ?_))
  · rw [← top_bit_eq_zero, ← List.length_eq_zero_iff]
    simp
  · simp

theorem digitSum_cons : digitSum (b :: rest) = b.toNat % 128 + 128 * digitSum rest := by
  rw [digitSum, digitSum, Finset.mul_sum]
  refine (Fin.sum_univ_succ _).trans (congrArg₂ _ ?_ (Finset.sum_congr rfl fun i _ => ?_))
  · rw [Fin.val_zero, pow_zero, mul_one]
    exact toNat_low_bits b
  · simp [pow_succ]
    ring

theorem Digits.endsOnce (h : Digits bytes n) : EndsOnce bytes := by
  induction h with
  | last hb => exact endsOnce_cons.mpr ⟨iff_of_true hb rfl, nofun⟩
  | more hb hrest ih =>
    have hne := List.ne_nil_of_length_pos hrest.length_pos
    exact endsOnce_cons.mpr ⟨iff_of_false (Nat.not_lt.mpr hb) hne, ih⟩

theorem Digits.eq_digitSum (h : Digits bytes n) : n = digitSum bytes := by
  induction h with
  | last hb => rw [digitSum_cons, Nat.mod_eq_of_lt hb]; rfl
  | more _ _ ih => rw [digitSum_cons, ← ih]

theorem EndsOnce.digits (h : EndsOnce bytes) (hne : bytes ≠ []) :
    Digits bytes (digitSum bytes) := by
  induction bytes with
  | nil => exact absurd rfl hne
  | cons b rest ih =>
    obtain ⟨hb, hrest⟩ := endsOnce_cons.mp h
    rw [digitSum_cons]
    by_cases hlast : rest = []
    · subst hlast
      have hlt := hb.mpr rfl
      have hd := Digits.last hlt
      rwa [← Nat.mod_eq_of_lt hlt] at hd
    · exact .more (Nat.not_lt.mp (mt hb.mp hlast)) (ih hrest hlast)

theorem varint_iff_carries : Varint bytes n ↔ Carries bytes n := by
  constructor
  · rintro ⟨hd, hle, hlt⟩
    exact ⟨hd.length_pos, hle, hd.endsOnce, hd.eq_digitSum, hlt⟩
  · rintro ⟨hpos, hle, hends, rfl, hlt⟩
    exact ⟨hends.digits (List.ne_nil_of_length_pos hpos), hle, hlt⟩

theorem Carries.exists_word (h : Carries bytes n) : ∃ word : UInt64, word.toNat = n :=
  ⟨UInt64.ofNat n, UInt64.toNat_ofNat_of_lt' h.lt⟩

-- ---------------------------------------------------------------------------
-- Digits in words
-- ---------------------------------------------------------------------------

/-- Takes digits into a word, each shifted to its place. What a shift moves past the end of the word
is gone. -/
def Reader.shiftedFrom : (left index : Nat) → (word : UInt64) → Reader UInt64
  | 0, _, _ => fail "varint longer than 10 bytes"
  | left + 1, index, word => do
    let b ← byte
    let digit := (b &&& 0x7f).toUInt64
    if left = 0 ∧ 1 < digit then fail "varint overflows u64"
    else
      let word := word ||| digit <<< UInt64.ofNat (7 * index)
      if b &&& 0x80 = 0 then return word else shiftedFrom left (index + 1) word

theorem toNat_or_shiftLeft {word : UInt64} {index : Nat} (hindex : index ≤ 9)
    (hword : word.toNat < 128 ^ index) (hdigit : index = 9 → b.toNat % 128 ≤ 1) :
    (word ||| (b &&& 0x7f).toUInt64 <<< UInt64.ofNat (7 * index)).toNat =
      word.toNat + b.toNat % 128 * 128 ^ index := by
  have hpow : 128 ^ index = 2 ^ (7 * index) := (pow_mul 2 7 index).symm
  have hshift : (UInt64.ofNat (7 * index)).toNat % 64 = 7 * index := by
    rw [UInt64.toNat_ofNat_of_lt' (by simp [UInt64.size]; omega), Nat.mod_eq_of_lt (by omega)]
  have hfits : b.toNat % 128 * 2 ^ (7 * index) < 2 ^ 64 := by
    rcases Nat.lt_or_eq_of_le hindex with hlt | rfl
    · have hle : 2 ^ (7 * index) ≤ 2 ^ 56 := Nat.pow_le_pow_right (by omega) (by omega)
      calc b.toNat % 128 * 2 ^ (7 * index)
        _ ≤ 127 * 2 ^ 56 := Nat.mul_le_mul (by omega) hle
        _ < 2 ^ 64 := by decide
    · calc b.toNat % 128 * 2 ^ (7 * 9)
        _ ≤ 1 * 2 ^ 63 := Nat.mul_le_mul_right _ (hdigit rfl)
        _ < 2 ^ 64 := by decide
  rw [UInt64.toNat_or, UInt64.toNat_shiftLeft, UInt8.toNat_toUInt64, toNat_low_bits, hshift,
    Nat.shiftLeft_eq, Nat.mod_eq_of_lt hfits, ← Nat.shiftLeft_eq, Nat.or_comm,
    ← Nat.shiftLeft_add_eq_or_of_lt (hpow ▸ hword), Nat.shiftLeft_eq, hpow, Nat.add_comm]

/-- Nothing is lost on the way: the word holds the number that the digits carry. -/
theorem Reader.shiftedFrom_eq {left index : Nat} {word : UInt64} (hleft : left + index = 10)
    (hword : word.toNat < 128 ^ index) :
    shiftedFrom left index word =
      varintFrom left index word.toNat >>= fun n => pure (UInt64.ofNat n) := by
  induction left generalizing index word with
  | zero => rfl
  | succ left ih =>
    rw [shiftedFrom, varintFrom, bind_assoc]
    congr 1
    funext b
    have hdigit : 1 < (b &&& 0x7f).toUInt64 ↔ 1 < b.toNat % 128 := by
      rw [UInt64.lt_iff_toNat_lt, UInt8.toNat_toUInt64, toNat_low_bits]
      rfl
    simp only [hdigit, top_bit_eq_zero]
    by_cases hfull : left = 0 ∧ 1 < b.toNat % 128
    · rw [if_pos hfull, if_pos hfull]
      rfl
    · -- The check comes before the shift, so what is shifted has room.
      have hsum := toNat_or_shiftLeft (b := b) (by omega) hword (by omega)
      rw [if_neg hfull, if_neg hfull]
      split
      · exact congrArg pure (UInt64.ofNat_toNat.symm.trans (congrArg UInt64.ofNat hsum))
      · have hdigits : b.toNat % 128 * 128 ^ index ≤ 127 * 128 ^ index :=
          Nat.mul_le_mul_right _ (by omega)
        have hlt : word.toNat + b.toNat % 128 * 128 ^ index < 128 ^ (index + 1) := by
          rw [Nat.pow_succ]
          omega
        rw [ih (by omega) (hsum ▸ hlt), hsum]
        rfl

theorem Reader.vlong_eq_shiftedFrom : vlong = shiftedFrom 10 0 0 := by
  have h : shiftedFrom 10 0 0 =
      varintFrom 10 0 (0 : UInt64).toNat >>= fun n => pure (UInt64.ofNat n) :=
    shiftedFrom_eq rfl (by decide)
  exact h.symm

-- ---------------------------------------------------------------------------
-- Signs in words
-- ---------------------------------------------------------------------------

/-- The lowest bit is the sign: it turns all the others over. -/
theorem unzigzag_eq_xor (n : UInt64) : unzigzag n = (n >>> 1).toInt64 ^^^ -(n &&& 1).toInt64 := by
  have hlt : n.toNat / 2 < 2 ^ 63 := by
    have := n.toNat_lt
    omega
  have hlow : (n &&& 1).toNat = n.toNat % 2 := by
    rw [UInt64.toNat_and]
    exact Nat.and_one_is_mod n.toNat
  have hhalf : n >>> 1 = UInt64.ofNat (n.toNat / 2) := by
    rw [← UInt64.toNat_inj, UInt64.toNat_shiftRight,
      UInt64.toNat_ofNat_of_lt' (hlt.trans (by decide))]
    exact Nat.shiftRight_one n.toNat
  have hupper : (n >>> 1).toInt64.toInt = n.toNat / 2 := by
    rw [hhalf, UInt64.toInt64_ofNat', Int64.toInt_ofNat_of_lt hlt]
    rfl
  rw [← Int64.toInt_inj, toInt_unzigzag, signed]
  by_cases heven : n.toNat % 2 = 0
  · have hsign : n &&& 1 = 0 := UInt64.toNat_inj.mp (hlow.trans heven)
    have hzero : -(0 : UInt64).toInt64 = 0 := by decide
    rw [if_pos heven, hsign, hzero, Int64.xor_zero, hupper]
  · have hsign : n &&& 1 = 1 := UInt64.toNat_inj.mp (hlow.trans (Nat.mod_two_ne_zero.mp heven))
    have hones : -(1 : UInt64).toInt64 = -1 := by decide
    rw [if_neg heven, hsign, hones, Int64.xor_neg_one, Int64.toInt_not, hupper,
      Int.bmod_eq_of_le (by omega) (by omega)]

-- ---------------------------------------------------------------------------
-- What is found
-- ---------------------------------------------------------------------------

namespace Reader

variable {α β : Type} {reader : Reader α} {number : α → β} {grammar : Grammar β} {c : Cursor}

/-- From this cursor on the reader finds the numbers that are spelled in front of it, takes just
their bytes, and fails with an error of serialization if none is spelled there. -/
structure Finds (reader : Reader α) (number : α → β) (grammar : Grammar β) (c : Cursor) :
    Prop where
  found (n : β) (d : Cursor) : (∃ a, number a = n ∧ reader.within c = (.ok a, d)) ↔
    ∃ bytes, c.Passed bytes d ∧ grammar bytes n
  fails : (∃ reason d, reader.within c = (.error (.serialization reason), d)) ↔
    ¬ ∃ bytes n d, c.Passed bytes d ∧ grammar bytes n

theorem Reads.finds (h : reader.Reads fun bytes a => grammar bytes (number a))
    (hn : ∀ bytes n, grammar bytes n → ∃ a, number a = n) : reader.Finds number grammar c := by
  have hfound (n : β) (d : Cursor) : (∃ a, number a = n ∧ reader.within c = (.ok a, d)) ↔
      ∃ bytes, c.Passed bytes d ∧ grammar bytes n := by
    constructor
    · rintro ⟨a, rfl, hr⟩
      exact (h c).sound hr
    · rintro ⟨bytes, hp, hb⟩
      obtain ⟨a, rfl⟩ := hn bytes n hb
      exact ⟨a, rfl, (h c).complete hb hp⟩
  refine ⟨hfound, ?_, fun hnone => ?_⟩
  · rintro ⟨reason, u, hr⟩ ⟨bytes, n, d, hp, hb⟩
    obtain ⟨a, -, hok⟩ := (hfound n d).mpr ⟨bytes, hp, hb⟩
    cases hr.symm.trans hok
  · rcases hr : reader.within c with ⟨e | a, d⟩
    · obtain ⟨-, reason, rfl⟩ := (h c).fault hr
      exact ⟨reason, d, rfl⟩
    · obtain ⟨bytes, hp, hb⟩ := (h c).sound hr
      exact absurd ⟨bytes, number a, d, hp, hb⟩ hnone

theorem vlong_finds (c : Cursor) : vlong.Finds UInt64.toNat Carries c := by
  exact (vlong_reads.congr fun _ _ => varint_iff_carries).finds fun _ _ => Carries.exists_word

theorem vint_finds (c : Cursor) :
    vint.Finds UInt32.toNat (fun bytes n => Carries bytes n ∧ n < 2 ^ 32) c := by
  refine (vint_reads.congr fun bytes n => ?_).finds fun bytes n h => ?_
  · rw [varint_iff_carries]
    exact (and_iff_left n.toNat_lt).symm
  · exact ⟨UInt32.ofNat n, UInt32.toNat_ofNat_of_lt' h.2⟩

theorem carries_zigzag {bytes : List UInt8} {n : Int64} :
    Carries bytes (zigzag n).toNat ↔ ∃ m, Carries bytes m ∧ n.toInt = signed m := by
  constructor
  · intro h
    exact ⟨_, h, by rw [← toInt_unzigzag, unzigzag_zigzag]⟩
  · rintro ⟨m, h, hn⟩
    obtain ⟨m, rfl⟩ := h.exists_word
    rw [← toInt_unzigzag, Int64.toInt_inj] at hn
    rwa [hn, zigzag_unzigzag]

theorem zlong_finds (c : Cursor) :
    zlong.Finds Int64.toInt (fun bytes z => ∃ n, Carries bytes n ∧ z = signed n) c := by
  refine (zlong_reads.congr fun bytes n => varint_iff_carries.trans carries_zigzag).finds
    fun bytes z => ?_
  rintro ⟨n, h, rfl⟩
  obtain ⟨n, rfl⟩ := h.exists_word
  exact ⟨unzigzag n, toInt_unzigzag n⟩

theorem zint_finds (c : Cursor) :
    zint.Finds Int32.toInt (fun bytes z => (∃ n, Carries bytes n ∧ z = signed n) ∧
      -2 ^ 31 ≤ z ∧ z < 2 ^ 31) c := by
  refine (zint_reads.congr fun bytes n => ?_).finds fun bytes z h => ?_
  · rw [varint_iff_carries, carries_zigzag, Int32.toInt_toInt64]
    exact (and_iff_left ⟨n.le_toInt, n.toInt_lt⟩).symm
  · exact ⟨Int32.ofInt z, Int32.toInt_ofInt_of_le h.2.1 h.2.2⟩

end Reader

/-- Wherever a reader of numbers stands, it finds a number exactly if from one to ten bytes are in
front of it of which only the last has its top bit clear, and which come to less than `2 ^ 64`; it
takes these and no others, and reads what they come to. The shorter words and the signed ones are
found where that fits them. All else is an error of serialization. The same readers come out if the
digits are shifted into a word and the sign is spread over it. -/
theorem varints_found (c : Cursor) :
    Reader.vlong.Finds UInt64.toNat Carries c ∧
    Reader.vint.Finds UInt32.toNat (fun bytes n => Carries bytes n ∧ n < 2 ^ 32) c ∧
    Reader.zlong.Finds Int64.toInt (fun bytes z => ∃ n, Carries bytes n ∧ z = signed n) c ∧
    Reader.zint.Finds Int32.toInt (fun bytes z => (∃ n, Carries bytes n ∧ z = signed n) ∧
      -2 ^ 31 ≤ z ∧ z < 2 ^ 31) c ∧
    Reader.vlong = Reader.shiftedFrom 10 0 0 ∧
    Reader.zlong = do
      let n ← Reader.shiftedFrom 10 0 0
      return (n >>> 1).toInt64 ^^^ -(n &&& 1).toInt64 := by
  refine ⟨Reader.vlong_finds c, Reader.vint_finds c, Reader.zlong_finds c, Reader.zint_finds c,
    Reader.vlong_eq_shiftedFrom, ?_⟩
  rw [← Reader.vlong_eq_shiftedFrom]
  exact congrArg (Reader.vlong >>= ·) (funext fun n => congrArg pure (unzigzag_eq_xor n))

/-- Needless digits do no harm, and the tenth byte has room for a single bit. -/
example : (Reader.vlong.start [0x81, 0x80, 0x00]).1 = .ok 1 ∧
    (Reader.vlong.start (List.replicate 9 0xff ++ [0x01])).1 = .ok 0xffffffffffffffff ∧
    (Reader.vlong.start (List.replicate 9 0x80 ++ [0x02])).1 =
      .error (.serialization "varint overflows u64") := ⟨rfl, rfl, rfl⟩

end ShardQuery.Wire
