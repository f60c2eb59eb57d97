import ShardQuery.Value.Wire
import ShardQuery.Proofs.Wire.Readers
import ShardQuery.Proofs.Wire.Writing
/-!
# Values and their bytes

The grammar of value bodies, by type and by state. The readers read it, so that a
value that is read has the type of its column; the writers write it, unless a
minimum or maximum holds a state.
-/

namespace ShardQuery

open Wire

-- ---------------------------------------------------------------------------
-- The grammar
-- ---------------------------------------------------------------------------

def Value.PlainBody : DataType → Grammar Value
  | .boolean, bytes, v => ∃ x, bytes = Wire.bool x ∧ v = .boolean x
  | .byte, bytes, v => ∃ n : Int8, bytes = [n.toUInt8] ∧ v = .byte n
  | .short, bytes, v => ∃ n : Int16, Varint bytes (zigzag n.toInt64).toNat ∧ v = .short n
  | .integer, bytes, v => ∃ n : Int32, Varint bytes (zigzag n.toInt64).toNat ∧ v = .integer n
  | .long, bytes, v => ∃ n : Int64, Varint bytes (zigzag n).toNat ∧ v = .long n
  | .float, bytes, v => ∃ x, bytes = Wire.single x ∧ v = .float x
  | .double, bytes, v => ∃ x, bytes = Wire.double x ∧ v = .double x
  | .string, bytes, v => ∃ s, Reader.Spelling bytes s ∧ v = .string s
  | .timestamp, bytes, v => ∃ n : Int64, Varint bytes (zigzag n).toNat ∧ v = .timestamp n
  | .undefined, _, _ => False
  | .aggregationState, _, _ => False

/-- A byte that tells whether there is a value, and its body if there is. -/
def Value.Flagged (body : Grammar Value) : Grammar Value :=
  fun bytes v => bytes = [0] ∧ v = .null ∨ ∃ back, bytes = 1 :: back ∧ body back v

/-- The body of a state: a tag and the fields. A minimum or maximum carries the type of its value,
which is never that of states. -/
def PartialState.Body : Grammar PartialState
  | bytes, .count n => ∃ back, bytes = 0 :: back ∧ Varint back n.toNat
  | bytes, .sumLong none => bytes = [1, 0, 0]
  | bytes, .sumLong (some n) => ∃ back, bytes = 1 :: 0 :: 1 :: back ∧ Varint back (zigzag n).toNat
  | bytes, .sumDouble none => bytes = [1, 1, 0]
  | bytes, .sumDouble (some x) => bytes = 1 :: 1 :: 1 :: double x
  | bytes, .average n x => ∃ front, bytes = 2 :: front ++ double x ∧ Varint front n.toNat
  | bytes, .extreme isMax v => ∃ t back, bytes = 3 :: Wire.bool isMax ++ t.write ++ back ∧
      t ≠ .aggregationState ∧ Value.Flagged (Value.PlainBody t) back v
  | bytes, .variance m => ∃ front, bytes = 4 :: front ++ double m.mean ++ double m.deviation ∧
      Varint front m.count.toNat

def Value.Body (t : DataType) : Grammar Value := fun bytes v =>
  if t = .aggregationState then ∃ s, PartialState.Body bytes s ∧ v = .state s
  else PlainBody t bytes v

-- ---------------------------------------------------------------------------
-- Reading
-- ---------------------------------------------------------------------------

theorem DataType.ofId?_eq_some {b : UInt8} {t : DataType} :
    ofId? b.toNat = some t ↔ b = UInt8.ofNat t.id := by
  constructor
  · intro ht
    have hlt : b.toNat < all.length := (List.getElem?_eq_some_iff.mp ht).1
    have hid : ∀ n : Fin 11, ofId? n = some t → UInt8.ofNat n = UInt8.ofNat t.id := by
      cases t <;> decide
    rw [← hid ⟨b.toNat, hlt⟩ ht, UInt8.ofNat_toNat]
  · rintro rfl
    cases t <;> rfl

theorem DataType.read_reads : DataType.read.Reads fun bytes t => bytes = t.write := by
  refine (Reader.byte_reads.settle (p := fun b t => b = UInt8.ofNat t.id) fun b => ?_).congr
    fun bytes t => ?_
  · cases ht : ofId? b.toNat with
    | some t =>
      refine (Reader.Reads.pure t).congr fun bytes t' => ?_
      rw [← ofId?_eq_some, ht, Option.some.injEq, Grammar.empty, eq_comm (a := t')]
    | none =>
      refine (Reader.Reads.fail _).congr fun bytes t => ?_
      rw [← ofId?_eq_some, ht]
      simp
  · constructor
    · rintro ⟨_, rfl, rfl⟩
      rfl
    · rintro rfl
      exact ⟨_, rfl, rfl⟩

namespace Value

theorem readPlain_reads (t : DataType) : (readPlain t).Reads (PlainBody t) := by
  cases t with
  | undefined => exact .fail _
  | boolean => exact Reader.bool_reads.map boolean
  | byte =>
    refine (Reader.byte_reads.map fun b => byte b.toInt8).congr fun bytes v => ?_
    constructor
    · rintro ⟨b, rfl, rfl⟩
      exact ⟨b.toInt8, rfl, rfl⟩
    · rintro ⟨n, rfl, rfl⟩
      exact ⟨n.toUInt8, rfl, rfl⟩
  | short =>
    refine (Reader.zint_reads.filter (fun n => -0x8000 ≤ n.toInt ∧ n.toInt < 0x8000)
      (fun n => short (Int16.ofInt n.toInt)) _).congr fun bytes v => ?_
    constructor
    · rintro ⟨n, hn, ⟨hle, hlt⟩, rfl⟩
      have he : (Int16.ofInt n.toInt).toInt64 = n.toInt64 := by
        apply Int64.toInt_inj.mp
        rw [Int16.toInt_toInt64, Int32.toInt_toInt64, Int16.toInt_ofInt_of_le hle hlt]
      exact ⟨_, he ▸ hn, rfl⟩
    · rintro ⟨n, hn, rfl⟩
      have hi : n.toInt32.toInt = n.toInt := Int16.toInt_toInt32 n
      have he : n.toInt32.toInt64 = n.toInt64 := by
        apply Int64.toInt_inj.mp
        rw [Int16.toInt_toInt64, Int32.toInt_toInt64, hi]
      have := n.le_toInt
      have := n.toInt_lt
      exact ⟨n.toInt32, he ▸ hn, by omega, by rw [hi, Int16.ofInt_toInt]⟩
  | integer => exact Reader.zint_reads.map integer
  | long => exact Reader.zlong_reads.map long
  | float => exact Reader.single_reads.map float
  | double => exact Reader.double_reads.map double
  | string => exact Reader.text_reads.map string
  | timestamp => exact Reader.zlong_reads.map timestamp
  | aggregationState => exact .fail _

theorem readWith_reads {body : Reader Value} {grammar : Grammar Value} (h : body.Reads grammar) :
    (readWith body).Reads (Flagged grammar) := by
  refine (Reader.Reads.bool_bind (G := fun present bytes v =>
    if present then grammar bytes v else bytes = [] ∧ v = .null) fun present => ?_).congr
      fun bytes v => ?_
  · cases present with
    | false => exact .pure null
    | true => exact h
  · simp [Flagged]

end Value

namespace PartialState

def Tagged (tag : UInt8) : Grammar PartialState := fun bytes s => Body (tag :: bytes) s

def SumBody : (isDouble present : Bool) → Grammar PartialState
  | false, false, bytes, s => bytes = [] ∧ s = .sumLong none
  | false, true, bytes, s => ∃ n : Int64, Varint bytes (zigzag n).toNat ∧ s = .sumLong (some n)
  | true, false, bytes, s => bytes = [] ∧ s = .sumDouble none
  | true, true, bytes, s => ∃ x, bytes = double x ∧ s = .sumDouble (some x)

theorem body_tag {bytes : List UInt8} {s : PartialState} (h : Body bytes s) :
    ∃ tag rest, bytes = tag :: rest ∧ tag.toNat ≤ 4 := by
  rcases s with n | (_ | n) | (_ | x) | ⟨n, x⟩ | ⟨isMax, v⟩ | m
  · obtain ⟨back, rfl, -⟩ := h
    exact ⟨_, _, rfl, by decide⟩
  · exact ⟨_, _, h, by decide⟩
  · obtain ⟨back, rfl, -⟩ := h
    exact ⟨_, _, rfl, by decide⟩
  · exact ⟨_, _, h, by decide⟩
  · exact ⟨_, _, h, by decide⟩
  · obtain ⟨front, rfl, -⟩ := h
    exact ⟨_, _, rfl, by decide⟩
  · obtain ⟨t, back, rfl, -⟩ := h
    exact ⟨_, _, rfl, by decide⟩
  · obtain ⟨front, rfl, -⟩ := h
    exact ⟨_, _, rfl, by decide⟩

def ExtremeBody (isMax : Bool) (t : DataType) : Grammar PartialState := fun bytes s =>
  ∃ v, t ≠ .aggregationState ∧ Value.Flagged (Value.PlainBody t) bytes v ∧ s = .extreme isMax v

theorem read_reads : read.Reads Body := by
  refine (Reader.Reads.byte_bind (G := Tagged) fun tag => ?_).congr fun bytes s => ?_
  · split
    · rename_i htag
      obtain rfl : tag = 0 := UInt8.toNat_inj.mp htag
      refine (Reader.vlong_reads.map count).congr fun bytes s => ?_
      rcases s with n | (_ | n) | (_ | x) | ⟨n, x⟩ | ⟨isMax, v⟩ | m <;> simp [Tagged, Body]
    · rename_i htag
      obtain rfl : tag = 1 := UInt8.toNat_inj.mp htag
      refine (Reader.Reads.bool_bind fun isDouble => Reader.Reads.bool_bind
        (G := SumBody isDouble) fun present => ?_).congr fun bytes s => ?_
      · rcases isDouble with _ | _ <;> rcases present with _ | _
        · exact .pure _
        · exact Reader.zlong_reads.map _
        · exact .pure _
        · exact Reader.double_reads.map _
      · rcases s with n | (_ | n) | (_ | x) | ⟨n, x⟩ | ⟨isMax, v⟩ | m <;>
          simp [Tagged, Body, SumBody]
    · rename_i htag
      obtain rfl : tag = 2 := UInt8.toNat_inj.mp htag
      refine (Reader.vlong_reads.bind fun n => Reader.double_reads.map (average n)).congr
        fun bytes s => ?_
      rcases s with n | (_ | n) | (_ | x) | ⟨n, x⟩ | ⟨isMax, v⟩ | m <;>
        simp [Tagged, Body, Grammar.andThen]
    · rename_i htag
      obtain rfl : tag = 3 := UInt8.toNat_inj.mp htag
      refine (Reader.Reads.bool_bind fun isMax => DataType.read_reads.bind
        (G := ExtremeBody isMax) fun t => ?_).congr fun bytes s => ?_
      · split
        · rename_i ht
          exact (Reader.Reads.fail _).congr fun bytes s => by simp [ExtremeBody, ht]
        · rename_i ht
          refine ((Value.readWith_reads (Value.readPlain_reads t)).map _).congr fun bytes s => ?_
          simp [ExtremeBody, ht]
      · rcases s with n | (_ | n) | (_ | x) | ⟨n, x⟩ | ⟨_ | _, v⟩ | m <;>
          simp [Tagged, Body, ExtremeBody, Grammar.andThen, Wire.bool]
    · rename_i htag
      obtain rfl : tag = 4 := UInt8.toNat_inj.mp htag
      refine (Reader.vlong_reads.bind fun n => Reader.double_reads.bind fun mean =>
        Reader.double_reads.map fun deviation => variance ⟨n, mean, deviation⟩).congr
          fun bytes s => ?_
      rcases s with n | (_ | n) | (_ | x) | ⟨n, x⟩ | ⟨isMax, v⟩ | ⟨n, mean, deviation⟩ <;>
        simp [Tagged, Body, Grammar.andThen]
    · rename_i h0 h1 h2 h3 h4
      refine (Reader.Reads.fail _).congr fun bytes s => ⟨False.elim, fun h => ?_⟩
      obtain ⟨_, _, he, htag⟩ := body_tag h
      obtain ⟨rfl, rfl⟩ := List.cons.inj he
      change ¬ _ at h0 h1 h2 h3 h4
      omega
  · constructor
    · rintro ⟨tag, rest, rfl, h⟩
      exact h
    · intro h
      obtain ⟨tag, rest, rfl, -⟩ := body_tag h
      exact ⟨tag, rest, rfl, h⟩

end PartialState

namespace Value

theorem readBody_reads (t : DataType) : (readBody t).Reads (Body t) := by
  by_cases ht : t = .aggregationState
  · subst ht
    exact PartialState.read_reads.map state
  · rw [readBody.eq_2 t ht]
    exact (readPlain_reads t).congr fun bytes v => by rw [Body, if_neg ht]

theorem PlainBody.dataType {t : DataType} {bytes : List UInt8} {v : Value}
    (h : PlainBody t bytes v) : v.dataType = t := by
  cases t with
  | undefined => exact h.elim
  | aggregationState => exact h.elim
  | _ =>
    obtain ⟨_, -, rfl⟩ := h
    rfl

theorem Body.dataType {t : DataType} {bytes : List UInt8} {v : Value} (h : Body t bytes v) :
    v.dataType = t := by
  rw [Body] at h
  split at h
  · rename_i ht
    obtain ⟨s, -, rfl⟩ := h
    exact ht.symm
  · exact PlainBody.dataType h

theorem Body.isNull {t : DataType} {bytes : List UInt8} {v : Value} (h : Body t bytes v) :
    v.isNull = false := by
  cases v with
  | null =>
    obtain rfl := h.dataType
    exact h.elim
  | _ => rfl

end Value

-- ---------------------------------------------------------------------------
-- Writing
-- ---------------------------------------------------------------------------

def PartialState.IsFlat : PartialState → Prop
  | extreme _ v => v.dataType ≠ .aggregationState
  | _ => True

def Value.IsFlat : Value → Prop
  | state s => s.IsFlat
  | _ => True

open Output (Spells)

namespace Value

theorem writePlain_spells {v : Value} (hnull : v.isNull = false)
    (hstate : v.dataType ≠ .aggregationState) :
    (v.writeBody v.dataType).Spells (PlainBody v.dataType) v := by
  cases v with
  | null => cases hnull
  | boolean x =>
    rw [writeBody, dataType, if_pos rfl]
    exact .of fun _ => ⟨x, rfl, rfl⟩
  | byte n =>
    rw [writeBody, dataType, if_pos rfl]
    exact .of fun _ => ⟨n, rfl, rfl⟩
  | short n =>
    rw [writeBody, dataType, if_pos rfl, zint, n.toInt64_toInt32]
    exact .of fun _ => ⟨n, .varint (UInt64.toNat_lt _), rfl⟩
  | integer n =>
    rw [writeBody, dataType, if_pos rfl]
    exact .of fun _ => ⟨n, .varint (UInt64.toNat_lt _), rfl⟩
  | long n =>
    rw [writeBody, dataType, if_pos rfl]
    exact .of fun _ => ⟨n, .varint (UInt64.toNat_lt _), rfl⟩
  | float x =>
    rw [writeBody, dataType, if_pos rfl]
    exact .of fun _ => ⟨x, rfl, rfl⟩
  | double x =>
    rw [writeBody, dataType, if_pos rfl]
    exact .of fun _ => ⟨x, rfl, rfl⟩
  | string s =>
    rw [writeBody, dataType, if_pos rfl]
    exact .of fun hlen => ⟨s, Reader.Spelling.text hlen, rfl⟩
  | timestamp n =>
    rw [writeBody, dataType, if_pos rfl]
    exact .of fun _ => ⟨n, .varint (UInt64.toNat_lt _), rfl⟩
  | state s => cases hstate rfl

end Value

theorem PartialState.write_extreme {isMax : Bool} {v : Value} (hnull : v.isNull = false) :
    (extreme isMax v).write =
      .of (3 :: Wire.bool isMax ++ v.dataType.write ++ [1]) ++ v.writeBody v.dataType := by
  cases v with
  | null => cases hnull
  | _ => rfl

theorem PartialState.write_spells {s : PartialState} (h : s.IsFlat) : s.write.Spells Body s := by
  rcases s with n | (_ | n) | (_ | x) | ⟨n, x⟩ | ⟨isMax, v⟩ | m
  · exact .of fun _ => ⟨_, rfl, .varint n.toNat_lt⟩
  · exact .of fun _ => rfl
  · exact .of fun _ => ⟨_, rfl, .varint (UInt64.toNat_lt _)⟩
  · exact .of fun _ => rfl
  · exact .of fun _ => rfl
  · exact .of fun _ => ⟨_, rfl, .varint n.toNat_lt⟩
  · by_cases hnull : v.isNull = true
    · cases v <;> cases hnull
      exact .of fun _ => ⟨.undefined, [0], rfl, by decide, .inl ⟨rfl, rfl⟩⟩
    · rw [Bool.not_eq_true] at hnull
      rw [write_extreme hnull]
      refine (Value.writePlain_spells hnull h).of_append fun back _ hv => ?_
      exact ⟨v.dataType, 1 :: back, by simp, h, .inr ⟨back, rfl, hv⟩⟩
  · exact .of fun _ => ⟨_, rfl, .varint m.count.toNat_lt⟩

theorem Value.writeBody_spells {t : DataType} {v : Value} (hfits : v.fits t = true)
    (hnull : v.isNull = false) (hflat : v.IsFlat) : (v.writeBody t).Spells (Body t) v := by
  obtain rfl : v.dataType = t := by simpa [fits, hnull] using hfits
  by_cases hstate : v.dataType = .aggregationState
  · cases v with
    | state s =>
      rw [writeBody, dataType, if_pos rfl]
      exact (PartialState.write_spells hflat).mono fun bytes hs => ⟨s, hs, rfl⟩
    | _ => cases hstate
  · refine (writePlain_spells hnull hstate).mono fun bytes hv => ?_
    rwa [Body, if_neg hstate]

end ShardQuery
