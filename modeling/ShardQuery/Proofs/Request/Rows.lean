import ShardQuery.Proofs.Except
import ShardQuery.Proofs.Request.Bitmap
import ShardQuery.Proofs.Value.Wire
/-!
# The grammar of rows

Rows, one by one and with or without their number in front. The checks that a
reader makes before it reads the rows, so that it does not trust a number that
cannot be right, refuse nothing that the grammar spells.
-/

namespace ShardQuery

open Wire

abbrev Row.Fits (row : Row) (types : List DataType) : Prop :=
  List.Forall₂ (fun (v : Value) t => v.fits t = true) row types

namespace Request

variable {types : List DataType}

-- ---------------------------------------------------------------------------
-- The grammar
-- ---------------------------------------------------------------------------

inductive Cells : List DataType → Grammar Row
  | nil : Cells [] [] []
  | null {t types bytes row} : Cells types bytes row → Cells (t :: types) bytes (.null :: row)
  | value {t types front back v row} : Value.Body t front v → Cells types back row →
      Cells (t :: types) (front ++ back) (v :: row)

/-- A row: the bitmap of its nulls, and its values. -/
def RowBody (types : List DataType) : Grammar Row := fun bytes row =>
  ∃ bitmap back, bytes = bitmap ++ back ∧ Bitmap bitmap (row.map Value.isNull) ∧
    Cells types back row

/-- Rows that each have a byte 1 in front, and a byte 0 behind the last one. -/
inductive Announced (types : List DataType) : Grammar (List Row)
  | done : Announced types [0] []
  | more {front back row rows} : RowBody types front row → Announced types back rows →
      Announced types (1 :: front ++ back) (row :: rows)

/-- A zero and announced rows, or the successor of the number of rows and so many rows. Without
columns, rows are announced unless there are none. -/
def RowsBody (types : List DataType) : Grammar (List Row) := fun bytes rows =>
  ∃ front back, bytes = front ++ back ∧
    (Varint front 0 ∧ Announced types back rows ∨
      Varint front (rows.length + 1) ∧ Grammar.Items (RowBody types) back rows ∧
        (types = [] → rows = []))

theorem Cells.fits {bytes : List UInt8} {row : Row} (h : Cells types bytes row) :
    row.Fits types := by
  induction h with
  | nil => exact .nil
  | null _ ih => exact .cons rfl ih
  | value hv _ ih => exact .cons (by simp [Value.fits, hv.dataType]) ih

theorem RowBody.fits {bytes : List UInt8} {row : Row} (h : RowBody types bytes row) :
    row.Fits types := by
  obtain ⟨_, _, -, -, h⟩ := h
  exact h.fits

theorem RowsBody.fits {bytes : List UInt8} {rows : List Row} (h : RowsBody types bytes rows) :
    ∀ row ∈ rows, row.Fits types := by
  obtain ⟨_, back, -, ⟨-, h⟩ | ⟨-, h, -⟩⟩ := h
  · induction h with
    | done => simp
    | more hrow _ ih => exact List.forall_mem_cons.mpr ⟨hrow.fits, ih⟩
  · induction h with
    | nil => simp
    | cons hrow _ ih => exact List.forall_mem_cons.mpr ⟨hrow.fits, ih⟩

-- ---------------------------------------------------------------------------
-- Reading
-- ---------------------------------------------------------------------------

def CellBody (isNull : Bool) (t : DataType) : Grammar Value := fun bytes v =>
  if isNull then bytes = [] ∧ v = .null else Value.Body t bytes v

def readCell (isNull : Bool) (t : DataType) : Reader Value :=
  if isNull then pure .null else Value.readBody t

theorem readCell_reads (isNull : Bool) (t : DataType) :
    (readCell isNull t).Reads (CellBody isNull t) := by
  cases isNull with
  | true => exact .pure Value.null
  | false => exact Value.readBody_reads t

theorem readValues_cons (isNull : Bool) (bits : List Bool) (t : DataType)
    (types : List DataType) : readValues (isNull :: bits) (t :: types) =
      readCell isNull t >>= fun v => readValues bits types >>= fun row => pure (v :: row) := by
  cases isNull <;> rfl

theorem readValues_reads (types : List DataType) {bits : List Bool}
    (h : bits.length = types.length) :
    (readValues bits types).Reads fun bytes row =>
      row.map Value.isNull = bits ∧ Cells types bytes row := by
  induction types generalizing bits with
  | nil =>
    obtain rfl := List.length_eq_zero_iff.mp h
    refine (Reader.Reads.pure []).congr fun bytes row => ?_
    constructor
    · rintro ⟨rfl, rfl⟩
      exact ⟨rfl, .nil⟩
    · rintro ⟨-, h⟩
      cases h
      exact ⟨rfl, rfl⟩
  | cons t types ih =>
    obtain ⟨bit, bits, rfl⟩ := List.exists_cons_of_length_eq_add_one h
    rw [readValues_cons]
    refine ((readCell_reads bit t).bind fun v => (ih (Nat.succ.inj h)).map (v :: ·)).congr
      fun bytes row => ?_
    constructor
    · rintro ⟨front, v, back, rfl, hv, row, ⟨rfl, hrow⟩, rfl⟩
      cases bit with
      | true =>
        obtain ⟨rfl, rfl⟩ := hv
        exact ⟨rfl, .null hrow⟩
      | false => exact ⟨by simp [hv.isNull], .value hv hrow⟩
    · rintro ⟨hbits, hrow⟩
      cases hrow with
      | null hrow =>
        obtain ⟨rfl, rfl⟩ := List.cons.inj hbits
        exact ⟨[], .null, _, rfl, ⟨rfl, rfl⟩, _, ⟨rfl, hrow⟩, rfl⟩
      | value hv hrow =>
        obtain ⟨rfl, rfl⟩ := List.cons.inj hbits
        exact ⟨_, _, _, rfl, by simpa [CellBody, hv.isNull] using hv, _, ⟨rfl, hrow⟩, rfl⟩

theorem readRow_reads (types : List DataType) : (readRow types).Reads (RowBody types) := by
  intro c
  refine ((Reader.exact_reads _ c).bind fun {_ bitmap d} hf _ => .check fun _ =>
    readValues_reads types ?_ d).congr fun bytes row => ?_
  · obtain ⟨rfl, hlen⟩ := hf
    rw [List.length_take, length_flatMap_bitsOfByte, hlen, bitmapLength]
    omega
  · constructor
    · rintro ⟨bitmap, _, back, rfl, ⟨rfl, hlen⟩, hpad, hbits, hrow⟩
      rw [List.contains_iff_mem] at hpad
      exact ⟨bitmap, back, rfl, ((bitmap_iff_unpacked hlen).mpr ⟨hbits, hpad⟩).1, hrow⟩
    · rintro ⟨bitmap, back, rfl, hmap, hrow⟩
      have hcol : (row.map Value.isNull).length = types.length := by
        rw [List.length_map, hrow.fits.length_eq]
      have hlen : bitmap.length = bitmapLength types.length := hcol ▸ hmap.length
      obtain ⟨hbits, hpad⟩ := (bitmap_iff_unpacked hlen).mp ⟨hmap, hcol⟩
      rw [← List.contains_iff_mem] at hpad
      exact ⟨bitmap, bitmap, back, rfl, ⟨rfl, hlen⟩, hpad, hbits, hrow⟩

theorem Announced.ne_nil {bytes : List UInt8} {rows : List Row} (h : Announced types bytes rows) :
    bytes ≠ [] := by
  cases h <;> simp

def AnnouncedAfter (types : List DataType) (b : UInt8) : Grammar (List Row) :=
  fun bytes rows => Announced types (b :: bytes) rows

theorem readItems_readsAt {c : Cursor} {fuel : Nat} (h : c.rest.length ≤ fuel) :
    (readItems types fuel).ReadsAt (Announced types) c := by
  induction fuel generalizing c with
  | zero =>
    have hrest : c.rest = [] := List.length_eq_zero_iff.mp (Nat.le_zero.mp h)
    have hfail : (readItems types 0).within c =
        (Reader.fallShort 1 c : Reader (List Row)).within c := by
      rcases c with ⟨position, rest⟩
      cases hrest
      rfl
    constructor
    · intro bytes rows d hrows hp
      have := hp.rest
      rw [hrest] at this
      exact absurd (List.append_eq_nil_iff.mp this.symm).1 hrows.ne_nil
    · intro rows d hr
      rw [hfail] at hr
      cases hr
    · intro e d hr
      rw [hfail] at hr
      exact Reader.ReadsAt.fault (.fail _) hr
  | succ fuel ih =>
    refine ((Reader.byte_reads c).bind (G := AnnouncedAfter types) fun {front b d} hf hp =>
      ?_).congr fun bytes rows => ?_
    · have hd : d.rest.length ≤ fuel := by
        have := hp.length_rest
        rw [hf, List.length_singleton] at this
        omega
      by_cases h1 : b = 1
      · subst h1
        rw [if_pos rfl]
        refine ((readRow_reads types d).bind fun {_ row e} _ hp' => (ih ?_).map (row :: ·)).congr
          fun bytes rows => ?_
        · have := hp'.length_rest
          omega
        · constructor
          · rintro ⟨front, row, back, rfl, hrow, rows, hrows, rfl⟩
            exact .more hrow hrows
          · intro h
            cases h with
            | more hrow hrows => exact ⟨_, _, _, rfl, hrow, _, hrows, rfl⟩
      · rw [if_neg h1]
        by_cases h0 : b = 0
        · subst h0
          rw [if_pos rfl]
          refine (Reader.ReadsAt.pure []).congr fun bytes rows => ?_
          constructor
          · rintro ⟨rfl, rfl⟩
            exact .done
          · intro h
            cases h with
            | done => exact ⟨rfl, rfl⟩
        · rw [if_neg h0]
          refine (Reader.ReadsAt.fail _).congr fun bytes rows => ⟨False.elim, fun h => ?_⟩
          cases h with
          | done => exact h0 rfl
          | more => exact h1 rfl
    · constructor
      · rintro ⟨_, b, back, rfl, rfl, hrows⟩
        exact hrows
      · intro h
        cases h with
        | done => exact ⟨[0], 0, [], rfl, rfl, .done⟩
        | more hrow hrows => exact ⟨[1], 1, _, rfl, rfl, .more hrow hrows⟩

theorem length_items_le {bytes : List UInt8} {rows : List Row}
    (h : Grammar.Items (RowBody types) bytes rows) :
    rows.length * bitmapLength types.length ≤ bytes.length := by
  induction h with
  | nil => simp
  | cons hrow _ ih =>
    obtain ⟨bitmap, back, rfl, hmap, hcells⟩ := hrow
    have hlen := hmap.length
    rw [List.length_map, hcells.fits.length_eq] at hlen
    rw [List.length_cons, Nat.succ_mul, List.length_append, List.length_append, hlen]
    omega

def RowsAfter (types : List DataType) (encoded : UInt64) : Grammar (List Row) := fun bytes rows =>
  encoded = 0 ∧ Announced types bytes rows ∨
    encoded.toNat = rows.length + 1 ∧ Grammar.Items (RowBody types) bytes rows ∧
      (types = [] → rows = [])

theorem RowsAfter.counted {encoded : UInt64} {bytes : List UInt8} {rows : List Row}
    (h : RowsAfter types encoded bytes rows) (h0 : encoded ≠ 0) :
    rows.length = encoded.toNat - 1 ∧ Grammar.Items (RowBody types) bytes rows ∧
      (types = [] → rows = []) := by
  rcases h with ⟨he, -⟩ | ⟨he, h⟩
  · exact absurd he h0
  · exact ⟨by omega, h⟩

theorem bitmapLength_eq_zero {columns : List DataType} :
    bitmapLength columns.length = 0 ↔ columns = [] := by
  rw [bitmapLength, ← List.length_eq_zero_iff]
  omega

theorem readRows_reads (types : List DataType) : (readRows types).Reads (RowsBody types) := by
  intro c
  refine ((Reader.vlong_reads c).bind (G := RowsAfter types) fun {_ encoded d} _ _ =>
    .remaining_bind ?_).congr fun bytes rows => ?_
  · dsimp only
    by_cases h0 : encoded = 0
    · subst h0
      rw [if_pos rfl]
      exact (readItems_readsAt (Nat.le_refl _)).congr fun bytes rows => by simp [RowsAfter]
    · rw [if_neg h0]
      refine .plausible_or (.fail _) (fun hbad bytes rows e hrows _ => ?_) fun hcolumns =>
        .plausible_or (.fail _) (fun hbad bytes rows e hrows hp => ?_) fun _ => ?_
      · obtain ⟨hlen, -, hnone⟩ := hrows.counted h0
        obtain rfl := hnone (bitmapLength_eq_zero.mp hbad.1)
        have := hbad.2
        rw [← hlen] at this
        cases this
      · obtain ⟨hlen, hitems, -⟩ := hrows.counted h0
        have hle : rows.length ≤ d.rest.length / bitmapLength types.length := by
          rw [Nat.le_div_iff_mul_le hbad.1, hp.length_rest]
          exact Nat.le_trans (length_items_le hitems) (Nat.le_add_right ..)
        omega
      · refine (Reader.times_reads (readRow_reads types) _ d).congr fun bytes rows => ?_
        constructor
        · rintro ⟨hitems, hlen⟩
          have hpos : 0 < encoded.toNat := Nat.pos_of_ne_zero fun h => h0 (UInt64.toNat_inj.mp h)
          refine .inr ⟨by omega, hitems, fun htypes => List.length_eq_zero_iff.mp ?_⟩
          have := mt (And.intro (bitmapLength_eq_zero.mpr htypes)) hcolumns
          omega
        · intro hrows
          obtain ⟨hlen, hitems, -⟩ := hrows.counted h0
          exact ⟨hitems, hlen⟩
  · constructor
    · rintro ⟨front, encoded, back, rfl, hn, ⟨rfl, hrows⟩ | ⟨hlen, hrows⟩⟩
      · exact ⟨front, back, rfl, .inl ⟨hn, hrows⟩⟩
      · exact ⟨front, back, rfl, .inr ⟨hlen ▸ hn, hrows⟩⟩
    · rintro ⟨front, back, rfl, ⟨hn, hrows⟩ | ⟨hn, hrows⟩⟩
      · exact ⟨front, 0, back, rfl, hn, .inl ⟨rfl, hrows⟩⟩
      · obtain ⟨encoded, he⟩ : ∃ n : UInt64, n.toNat = rows.length + 1 :=
          ⟨_, UInt64.toNat_ofNat_of_lt' hn.lt⟩
        rw [← he] at hn
        exact ⟨front, encoded, back, rfl, hn, .inr ⟨he, hrows⟩⟩

end Request

end ShardQuery
