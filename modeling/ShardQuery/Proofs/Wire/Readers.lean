import Mathlib.Tactic.Ring
import ShardQuery.Proofs.Text.Utf8
import ShardQuery.Proofs.Wire.Numbers
/-!
# What the readers of numbers and texts read

Each of them reads a grammar that can be said without the reader: fixed bytes, the
digits of a number, or a length and that many bytes.
-/

namespace ShardQuery.Wire.Reader

variable {α : Type} {c d : Cursor}

-- ---------------------------------------------------------------------------
-- Bytes
-- ---------------------------------------------------------------------------

theorem exact_within (count : Nat) (c : Cursor) :
    (exact count).within c =
      if (c.rest.take count).length < count then (fallShort count c).within c
      else (.ok (c.rest.take count), ⟨c.position + count, c.rest.drop count⟩) := by
  rw [exact, Work.within_bind, Work.within_get]
  dsimp only
  split <;> rfl

theorem exact_reads (count : Nat) :
    (exact count).Reads fun bytes taken => bytes = taken ∧ bytes.length = count := by
  intro c
  constructor
  · rintro bytes _ d ⟨rfl, rfl⟩ ⟨hr, hp⟩
    rw [exact_within, hr, List.take_left, if_neg (Nat.lt_irrefl _), List.drop_left, ← hp]
  · intro a d hr
    rw [exact_within] at hr
    split at hr
    · cases hr
    · rename_i hlen
      cases hr
      have hle : count ≤ c.rest.length := by
        rw [List.length_take] at hlen
        omega
      have hl : (c.rest.take count).length = count := List.length_take_of_le hle
      refine ⟨_, ⟨(List.take_append_drop count c.rest).symm, ?_⟩, rfl, hl⟩
      rw [hl]
  · intro e d hr
    rw [exact_within] at hr
    split at hr
    · cases hr
      exact ⟨⟨[], .refl _⟩, _, rfl⟩
    · cases hr

theorem byte_within (c : Cursor) :
    byte.within c = match c.rest with
      | [] => (fallShort 1 c).within c
      | b :: rest => (.ok b, ⟨c.position + 1, rest⟩) := by
  rcases c with ⟨position, _ | ⟨b, rest⟩⟩ <;> rfl

theorem byte_reads : byte.Reads fun bytes b => bytes = [b] := by
  intro c
  constructor
  · rintro _ b d rfl hp
    obtain ⟨position, rest, rfl, rfl⟩ := Cursor.Passed.iff_eq.mp hp
    rfl
  · intro b d hr
    rw [byte_within] at hr
    split at hr
    · cases hr
    · rename_i b rest hrest
      cases hr
      exact ⟨[b], ⟨hrest, rfl⟩, rfl⟩
  · intro e d hr
    rw [byte_within] at hr
    split at hr
    · cases hr
      exact ⟨⟨[], .refl _⟩, _, rfl⟩
    · cases hr

theorem Reads.byte_bind {next : UInt8 → Reader α} {G : UInt8 → Grammar α}
    (h : ∀ b, (next b).Reads (G b)) :
    (byte >>= next).Reads fun bytes a => ∃ b rest, bytes = b :: rest ∧ G b rest a := by
  refine (byte_reads.bind h).congr fun bytes a => ?_
  constructor
  · rintro ⟨_, b, rest, rfl, rfl, hb⟩
    exact ⟨b, rest, rfl, hb⟩
  · rintro ⟨b, rest, rfl, hb⟩
    exact ⟨[b], b, rest, rfl, rfl, hb⟩

theorem bool_reads : bool.Reads fun bytes x => bytes = Wire.bool x := by
  refine (Reads.byte_bind (G := fun b rest x => rest = [] ∧ b = if x then 1 else 0)
    fun b => ?_).congr fun bytes x => ?_
  · by_cases h0 : b = 0
    · subst h0
      exact (Reads.pure false).congr fun bytes x => by cases x <;> simp [Grammar.empty]
    · by_cases h1 : b = 1
      · subst h1
        exact (Reads.pure true).congr fun bytes x => by cases x <;> simp [Grammar.empty]
      · simp only [h0, h1, ↓reduceIte]
        exact (Reads.fail _).congr fun bytes x => by cases x <;> simp [h0, h1]
  · constructor
    · rintro ⟨b, rest, rfl, rfl, rfl⟩
      rfl
    · rintro rfl
      exact ⟨_, [], rfl, rfl, rfl⟩

theorem Reads.bool_bind {next : Bool → Reader α} {G : Bool → Grammar α}
    (h : ∀ x, (next x).Reads (G x)) :
    (bool >>= next).Reads fun bytes a =>
      ∃ x rest, bytes = (if x then 1 else 0) :: rest ∧ G x rest a := by
  refine (bool_reads.bind h).congr fun bytes a => ?_
  constructor
  · rintro ⟨_, x, rest, rfl, rfl, hb⟩
    exact ⟨x, rest, rfl, hb⟩
  · rintro ⟨x, rest, rfl, hb⟩
    exact ⟨_, x, rest, rfl, rfl, hb⟩

-- ---------------------------------------------------------------------------
-- Numbers
-- ---------------------------------------------------------------------------

/-- What may follow `b` where `left` more bytes are allowed, and the number that comes out. -/
def DigitsAfter (b : UInt8) (left index value : Nat) : Grammar Nat :=
  fun bytes m => ∃ n, Digits (b :: bytes) n ∧ bytes.length ≤ left ∧ n < 2 * 128 ^ left ∧
    m = value + n * 128 ^ index

theorem digitsAfter_last {b : UInt8} {left index value : Nat} {bytes : List UInt8} {m : Nat}
    (hb : b.toNat < 128) (hfit : ¬ (left = 0 ∧ 1 < b.toNat % 128)) :
    Grammar.empty (value + b.toNat % 128 * 128 ^ index) bytes m ↔
      DigitsAfter b left index value bytes m := by
  have hmod : b.toNat % 128 = b.toNat := Nat.mod_eq_of_lt hb
  rw [hmod] at hfit ⊢
  constructor
  · rintro ⟨rfl, rfl⟩
    refine ⟨b.toNat, .last hb, Nat.zero_le _, ?_, rfl⟩
    cases left with
    | zero => omega
    | succ left =>
      have : 0 < 128 ^ left := Nat.pow_pos (by omega)
      rw [Nat.pow_succ]
      omega
  · rintro ⟨n, hn, -, -, rfl⟩
    cases hn with
    | last => exact ⟨rfl, rfl⟩
    | more hge => omega

theorem digitsAfter_full {b : UInt8} {left index value : Nat} {bytes : List UInt8} {m : Nat}
    (hfull : left = 0 ∧ 1 < b.toNat % 128) : ¬ DigitsAfter b left index value bytes m := by
  obtain ⟨rfl, hdigit⟩ := hfull
  rintro ⟨n, hn, hlen, hlt, -⟩
  cases hn with
  | last => omega
  | more _ hrest =>
    have := hrest.length_pos
    omega

theorem digitsAfter_more {b : UInt8} {left index value : Nat} {bytes : List UInt8} {m : Nat}
    (hb : 128 ≤ b.toNat) :
    (∃ n, Digits bytes n ∧ bytes.length ≤ left ∧ n < 2 * 128 ^ (left - 1) ∧
      m = value + b.toNat % 128 * 128 ^ index + n * 128 ^ (index + 1)) ↔
      DigitsAfter b left index value bytes m := by
  have hsum (n : Nat) : value + b.toNat % 128 * 128 ^ index + n * 128 ^ (index + 1) =
      value + (b.toNat % 128 + 128 * n) * 128 ^ index := by
    rw [Nat.pow_succ]
    ring
  have hlt (n : Nat) (h : 0 < left) :
      n < 2 * 128 ^ (left - 1) ↔ b.toNat % 128 + 128 * n < 2 * 128 ^ left := by
    obtain ⟨k, rfl⟩ := Nat.exists_eq_succ_of_ne_zero (Nat.pos_iff_ne_zero.mp h)
    rw [Nat.succ_sub_one, Nat.pow_succ]
    omega
  constructor
  · rintro ⟨n, hn, hlen, hn', rfl⟩
    have hpos : 0 < left := Nat.lt_of_lt_of_le hn.length_pos hlen
    exact ⟨_, .more hb hn, hlen, (hlt n hpos).mp hn', hsum n⟩
  · rintro ⟨_, hn, hlen, hn', rfl⟩
    cases hn with
    | last => omega
    | @more _ _ n _ hn =>
      have hpos : 0 < left := Nat.lt_of_lt_of_le hn.length_pos hlen
      exact ⟨n, hn, hlen, (hlt n hpos).mpr hn', (hsum n).symm⟩

/-- With `left` bytes still allowed, the last of them carries one bit. -/
theorem varintFrom_reads (left index value : Nat) :
    (varintFrom left index value).Reads fun bytes m => ∃ n, Digits bytes n ∧
      bytes.length ≤ left ∧ n < 2 * 128 ^ (left - 1) ∧ m = value + n * 128 ^ index := by
  induction left generalizing index value with
  | zero =>
    refine (Reads.fail _).congr fun bytes m => ?_
    constructor
    · rintro ⟨⟩
    · rintro ⟨n, hn, hlen, -⟩
      have := hn.length_pos
      omega
  | succ left ih =>
    refine (Reads.byte_bind (G := fun b => DigitsAfter b left index value) fun b => ?_).congr
      fun bytes m => ?_
    · dsimp only
      split
      · rename_i hfull
        refine (Reads.fail _).congr fun bytes m => ⟨False.elim, ?_⟩
        exact digitsAfter_full hfull
      · rename_i hfit
        split
        · rename_i hb
          exact (Reads.pure _).congr fun bytes m => digitsAfter_last hb hfit
        · rename_i hb
          exact (ih _ _).congr fun bytes m => digitsAfter_more (Nat.le_of_not_lt hb)
    · constructor
      · rintro ⟨b, rest, rfl, n, hn, hlen, hlt, rfl⟩
        exact ⟨n, hn, Nat.succ_le_succ hlen, hlt, rfl⟩
      · rintro ⟨n, hn, hlen, hlt, rfl⟩
        cases hn with
        | last hb => exact ⟨_, [], rfl, _, .last hb, Nat.zero_le _, hlt, rfl⟩
        | more hge hrest =>
          exact ⟨_, _, rfl, _, .more hge hrest, Nat.le_of_succ_le_succ hlen, hlt, rfl⟩

theorem vlong_reads : vlong.Reads fun bytes n => Varint bytes n.toNat := by
  refine ((varintFrom_reads 10 0 0).map UInt64.ofNat).congr fun bytes n => ?_
  constructor
  · rintro ⟨_, ⟨n, hn, hlen, hlt, rfl⟩, rfl⟩
    have hlt' : n < 2 ^ 64 := by omega
    rw [Nat.zero_add, Nat.pow_zero, Nat.mul_one, UInt64.toNat_ofNat_of_lt' hlt']
    exact ⟨hn, hlen, hlt'⟩
  · rintro ⟨hn, hlen, hlt⟩
    exact ⟨n.toNat, ⟨n.toNat, hn, hlen, by omega, by omega⟩, (UInt64.ofNat_toNat).symm⟩

theorem vint_reads : vint.Reads fun bytes n => Varint bytes n.toNat := by
  refine (vlong_reads.filter (fun m => m.toNat < 0x100000000) (fun m => UInt32.ofNat m.toNat)
    _).congr fun bytes n => ?_
  constructor
  · rintro ⟨m, hm, hlt, rfl⟩
    rwa [UInt32.toNat_ofNat_of_lt' hlt]
  · intro h
    have hlt : n.toNat < 2 ^ 32 := n.toNat_lt
    have hm : (UInt64.ofNat n.toNat).toNat = n.toNat := UInt64.toNat_ofNat_of_lt' h.lt
    exact ⟨UInt64.ofNat n.toNat, hm.symm ▸ h, hm.symm ▸ hlt, by rw [hm, UInt32.ofNat_toNat]⟩

theorem zlong_reads : zlong.Reads fun bytes n => Varint bytes (zigzag n).toNat := by
  refine (vlong_reads.map unzigzag).congr fun bytes n => ?_
  constructor
  · rintro ⟨m, hm, rfl⟩
    rwa [zigzag_unzigzag]
  · intro h
    exact ⟨zigzag n, h, (unzigzag_zigzag n).symm⟩

theorem zint_reads : zint.Reads fun bytes n => Varint bytes (zigzag n.toInt64).toNat := by
  refine (zlong_reads.filter (fun m => -0x80000000 ≤ m.toInt ∧ m.toInt < 0x80000000)
    (fun m => Int32.ofInt m.toInt) _).congr fun bytes n => ?_
  constructor
  · rintro ⟨m, hm, ⟨hle, hlt⟩, rfl⟩
    have he : (Int32.ofInt m.toInt).toInt64 = m := by
      apply Int64.toInt_inj.mp
      rw [Int32.toInt_toInt64, Int32.toInt_ofInt_of_le hle hlt]
    rwa [he]
  · intro h
    have hn : n.toInt64.toInt = n.toInt := Int32.toInt_toInt64 n
    have := n.le_toInt
    have := n.toInt_lt
    exact ⟨n.toInt64, h, by omega, by rw [hn, Int32.ofInt_toInt]⟩

theorem exact_littleEndian {bytes : List UInt8} {count n : Nat} (hn : n < 256 ^ count) :
    bytes.length = count ∧ ofLittleEndian bytes = n ↔ bytes = littleEndian count n := by
  constructor
  · rintro ⟨rfl, rfl⟩
    exact (littleEndian_ofLittleEndian bytes).symm
  · rintro rfl
    exact ⟨length_littleEndian count n,
      (ofLittleEndian_littleEndian count n).trans (Nat.mod_eq_of_lt hn)⟩

theorem words_read {α : Type} {count : Nat} (ofNat : Nat → α) (toNat : α → Nat)
    (hlt : ∀ a, toNat a < 256 ^ count) (hword : ∀ a, ofNat (toNat a) = a)
    (hnumber : ∀ n, n < 256 ^ count → toNat (ofNat n) = n) :
    (exact count >>= fun taken => pure (ofNat (ofLittleEndian taken)) : Reader α).Reads
      fun bytes a => bytes = littleEndian count (toNat a) := by
  refine ((exact_reads count).map fun taken => ofNat (ofLittleEndian taken)).congr
    fun bytes a => ?_
  rw [← exact_littleEndian (hlt a)]
  constructor
  · rintro ⟨_, ⟨rfl, hlen⟩, rfl⟩
    have hbytes := ofLittleEndian_lt bytes
    rw [hlen] at hbytes
    exact ⟨hlen, (hnumber _ hbytes).symm⟩
  · rintro ⟨hlen, he⟩
    exact ⟨bytes, ⟨rfl, hlen⟩, by rw [he, hword]⟩

theorem uint32_reads : uint32.Reads fun bytes n => bytes = Wire.uint32 n :=
  words_read UInt32.ofNat UInt32.toNat UInt32.toNat_lt (fun _ => UInt32.ofNat_toNat)
    fun _ => UInt32.toNat_ofNat_of_lt'

theorem single_reads : single.Reads fun bytes x => bytes = Wire.single x :=
  words_read (fun n => Single.mk (UInt32.ofNat n)) (fun x => x.bits.toNat)
    (fun x => x.bits.toNat_lt) (fun _ => congrArg Single.mk UInt32.ofNat_toNat)
    fun _ => UInt32.toNat_ofNat_of_lt'

theorem double_reads : double.Reads fun bytes x => bytes = Wire.double x :=
  words_read (fun n => Double.mk (UInt64.ofNat n)) (fun x => x.bits.toNat)
    (fun x => x.bits.toNat_lt) (fun _ => congrArg Double.mk UInt64.ofNat_toNat)
    fun _ => UInt64.toNat_ofNat_of_lt'

-- ---------------------------------------------------------------------------
-- Lengths
-- ---------------------------------------------------------------------------

def Spelling (bytes : List UInt8) (s : String) : Prop :=
  ∃ front, bytes = front ++ Utf8.encode s ∧ Varint front (Utf8.encode s).length

theorem Spelling.text {s : String} (h : (Wire.text s).length < 2 ^ 64) :
    Spelling (Wire.text s) s := by
  refine ⟨varint (Utf8.encode s).length, rfl, .varint ?_⟩
  rw [Wire.text, List.length_append] at h
  omega

/-- A length that the bytes behind it bear out. The check before they are read refuses nothing. -/
theorem Reads.length_bind {next : Nat → Reader α} {G : Nat → Grammar α}
    (h : ∀ n, (next n).Reads (G n)) (hlen : ∀ {n bytes a}, G n bytes a → n ≤ bytes.length) :
    (length >>= next).Reads fun bytes a => ∃ front n back, bytes = front ++ back ∧
      Varint front n ∧ G n back a := by
  have he : length >>= next = vlong >>= fun n => remaining >>= fun left =>
      if left < n.toNat then Reader.fail s!"declared length {n} exceeds {left} remaining bytes"
      else next n.toNat := by
    rw [length, bind_assoc]
    congr 1
    funext n
    rw [bind_assoc]
    congr 1
    funext left
    split <;> rfl
  rw [he]
  intro c
  refine ((vlong_reads c).bind (G := fun n => G n.toNat) fun {front n d} _ _ =>
    .remaining_bind (.plausible_or (.fail _) (fun hshort bytes a e hb hp => ?_)
      fun _ => h _ d)).congr fun bytes a => ?_
  · have := hlen hb
    have := hp.length_rest
    omega
  · constructor
    · rintro ⟨front, n, back, rfl, hn, hb⟩
      exact ⟨front, n.toNat, back, rfl, hn, hb⟩
    · rintro ⟨front, n, back, rfl, hn, hb⟩
      obtain ⟨n, rfl⟩ : ∃ m : UInt64, m.toNat = n := ⟨_, UInt64.toNat_ofNat_of_lt' hn.lt⟩
      exact ⟨front, n, back, rfl, hn, hb⟩

theorem text_reads : text.Reads Spelling := by
  refine (Reads.length_bind (G := fun n bytes s => bytes = Utf8.encode s ∧ bytes.length = n)
    (fun n => ?_) fun h => h.2.ge).congr fun bytes s => ?_
  · refine ((exact_reads n).settle (p := fun taken s => taken = Utf8.encode s)
      fun taken => ?_).congr fun bytes s => ?_
    · cases hs : Utf8.decode taken with
      | ok s =>
        refine (Reads.pure s).congr fun bytes s' => ?_
        rw [← Utf8.decode_eq_ok, hs, Except.ok.injEq, Grammar.empty, eq_comm (a := s')]
      | error fault =>
        refine (Reads.fail _).congr fun bytes s => ⟨False.elim, ?_⟩
        rintro ⟨-, he⟩
        cases (Utf8.decode_eq_ok.mpr he).symm.trans hs
    · constructor
      · rintro ⟨_, ⟨rfl, hlen⟩, he⟩
        exact ⟨he, hlen⟩
      · rintro ⟨he, hlen⟩
        exact ⟨bytes, ⟨rfl, hlen⟩, he⟩
  · constructor
    · rintro ⟨front, _, _, rfl, hn, rfl, rfl⟩
      exact ⟨front, rfl, hn⟩
    · rintro ⟨front, rfl, hn⟩
      exact ⟨front, _, _, rfl, hn, rfl, rfl⟩

theorem job_reads : job.Reads fun bytes id => bytes = id.bytes := by
  refine ((exact_reads 16).settle (p := fun taken id => taken = id.bytes) fun taken => ?_).congr
    fun bytes id => ?_
  · rw [JobId.ofBytes?]
    by_cases hlen : taken.length = 16
    · simp only [hlen, ↓reduceDIte]
      refine (Reads.pure _).congr fun bytes id => and_congr_right fun _ => ?_
      rcases id with ⟨bytes, _⟩
      simp [eq_comm]
    · simp only [hlen, ↓reduceDIte]
      refine (Reads.fail _).congr fun bytes id => ⟨False.elim, ?_⟩
      rintro ⟨-, rfl⟩
      exact hlen id.length_bytes
  · constructor
    · rintro ⟨_, ⟨rfl, -⟩, he⟩
      exact he
    · rintro rfl
      exact ⟨_, ⟨rfl, id.length_bytes⟩, rfl⟩

theorem times_reads {item : Reader α} {grammar : Grammar α} (h : item.Reads grammar) (n : Nat) :
    (times item n).Reads fun bytes xs => grammar.Items bytes xs ∧ xs.length = n := by
  induction n with
  | zero =>
    refine (Reads.pure []).congr fun bytes xs => ?_
    constructor
    · rintro ⟨rfl, rfl⟩
      exact ⟨.nil, rfl⟩
    · rintro ⟨hitems, hlen⟩
      cases hitems with
      | nil => exact ⟨rfl, rfl⟩
      | cons => cases hlen
  | succ n ih =>
    refine (h.bind fun x => ih.map (x :: ·)).congr fun bytes xs => ?_
    constructor
    · rintro ⟨front, x, back, rfl, hx, xs, ⟨hxs, rfl⟩, rfl⟩
      exact ⟨.cons hx hxs, rfl⟩
    · rintro ⟨hitems, hlen⟩
      cases hitems with
      | nil => cases hlen
      | cons hx hxs => exact ⟨_, _, _, rfl, hx, _, ⟨hxs, Nat.succ.inj hlen⟩, rfl⟩

end ShardQuery.Wire.Reader
