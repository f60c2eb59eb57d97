import ShardQuery.Proofs.Request.Decode
/-!
# Requests that are encoded and decoded again

What is written is a spelling of what was to be written, layer by layer. The reader
of that grammar then gives it back.
-/

namespace ShardQuery

open Wire

def Row.IsFlat (row : Row) : Prop := ∀ v ∈ row, v.IsFlat

namespace Request

variable {types : List DataType} {row : Row} {rows : List Row}

-- ---------------------------------------------------------------------------
-- Rows
-- ---------------------------------------------------------------------------

def writeCell (value : Value) (type : DataType) : Output :=
  if value.isNull then .of [] else value.writeBody type

theorem writeRow_eq (types : List DataType) (row : Row) : writeRow types row =
    if row.length ≠ types.length then
      .fail (.serialization s!"row has {row.length} columns, expected {types.length}")
    else .of (packBits (row.map Value.isNull)) ++
      .each (fun (value, type) => writeCell value type) (row.zip types) := rfl

theorem writeCells_spells (hfits : row.Fits types) (hflat : row.IsFlat) :
    (Output.each (fun (value, type) => writeCell value type) (row.zip types)).Spells
      (Cells types) row := by
  induction hfits with
  | nil => exact .of fun _ => .nil
  | @cons v t row types hv _ ih =>
    have ih := ih fun u hu => hflat u (List.mem_cons_of_mem v hu)
    rw [List.zip_cons_cons, Output.each]
    dsimp only [writeCell]
    cases hnull : v.isNull with
    | true =>
      cases v <;> cases hnull
      exact ih.of_append fun back _ hcells => .null hcells
    | false =>
      have hbody := Value.writeBody_spells hv hnull (hflat v List.mem_cons_self)
      exact hbody.append ih fun front back hbody hcells => .value hbody hcells

theorem writeRow_spells (hfits : row.Fits types) (hflat : row.IsFlat) :
    (writeRow types row).Spells (RowBody types) row := by
  rw [writeRow_eq, if_neg (not_not.mpr hfits.length_eq)]
  exact (writeCells_spells hfits hflat).of_append fun back _ hcells =>
    ⟨packBits (row.map Value.isNull), back, rfl, .packBits _, hcells⟩

theorem writeItems_spells (hfits : ∀ row ∈ rows, row.Fits types)
    (hflat : ∀ row ∈ rows, row.IsFlat) :
    (writeItems types (rows.map .ok)).Spells (Announced types) rows := by
  induction rows with
  | nil => exact .of fun _ => .done
  | cons row rows ih =>
    obtain ⟨hrow, hrows⟩ := List.forall_mem_cons.mp hfits
    obtain ⟨hrow', hrows'⟩ := List.forall_mem_cons.mp hflat
    have hfront : (.of [1] ++ writeRow types row).Spells
        (fun bytes row => ∃ back, bytes = 1 :: back ∧ RowBody types back row) row :=
      (writeRow_spells hrow hrow').of_append fun back _ h => ⟨back, rfl, h⟩
    refine hfront.append (ih hrows hrows') ?_
    rintro _ back ⟨front, rfl, hrow⟩ hrows
    exact .more hrow hrows

theorem writeAnnounced_spells (hfits : ∀ row ∈ rows, row.Fits types)
    (hflat : ∀ row ∈ rows, row.IsFlat) :
    (Output.of (varint 0) ++ writeItems types (rows.map .ok)).Spells (RowsBody types) rows :=
  (writeItems_spells hfits hflat).of_append fun back _ hrows =>
    ⟨varint 0, back, rfl, .inl ⟨.varint (by decide), hrows⟩⟩

/-- Where there are columns a row takes at least a byte, so that the number of rows fits a word
if the rows fit into memory. -/
theorem writeCounted_spells (hcolumns : types ≠ []) (hfits : ∀ row ∈ rows, row.Fits types)
    (hflat : ∀ row ∈ rows, row.IsFlat) :
    (Output.of (varint (rows.length + 1)) ++ Output.each (writeRow types) rows).Spells
      (RowsBody types) rows := by
  have heach := Output.Spells.each fun row h => writeRow_spells (hfits row h) (hflat row h)
  refine heach.of_append fun back hlen hitems =>
    ⟨_, back, rfl, .inr ⟨.varint ?_, hitems, fun h => absurd h hcolumns⟩⟩
  have hdigits := (Digits.varint (rows.length + 1)).length_pos
  have hrows : rows.length ≤ back.length := by
    have hbitmap := Nat.pos_of_ne_zero (mt bitmapLength_eq_zero.mp hcolumns)
    exact Nat.le_trans (Nat.le_mul_of_pos_right _ hbitmap) (length_items_le hitems)
  rw [List.length_append] at hlen
  omega

theorem writeRows_spells {bucket : Bucket} (hrows : bucket.rows = .ok rows)
    (hfits : ∀ row ∈ rows, row.Fits types) (hflat : ∀ row ∈ rows, row.IsFlat) :
    (writeRows types bucket).Spells (RowsBody types) rows := by
  cases bucket with
  | materialized rows =>
    cases hrows
    rw [writeRows]
    split
    · exact writeAnnounced_spells hfits hflat
    · rename_i hcolumns
      exact writeCounted_spells (by simpa using hcolumns) hfits hflat
  | streamed items =>
    rw [writeRows, mapM_id_eq_ok.mp hrows]
    exact writeAnnounced_spells hfits hflat

-- ---------------------------------------------------------------------------
-- Requests
-- ---------------------------------------------------------------------------

theorem Header.Body.written (header : Header) :
    Header.Body (version :: Wire.job header.job ++ byteOfBits [header.isLast, header.isFailure] ::
      vint header.producer ++ vlong header.sequence ++ varint header.columns.toNat) header := by
  have hbits : [header.isLast, header.isFailure].length ≤ 8 := by simp
  refine ⟨byteOfBits [header.isLast, header.isFailure], vint header.producer,
    vlong header.sequence, varint header.columns.toNat, rfl, ?_, ?_, ?_, ?_, ?_, ?_⟩
  · cases header.isLast <;> cases header.isFailure <;> decide
  · exact (testBit_byteOfBits hbits 0).symm
  · exact (testBit_byteOfBits hbits 1).symm
  · exact .varint (Nat.lt_trans header.producer.toNat_lt (by decide))
  · exact .varint header.sequence.toNat_lt
  · exact .varint (Nat.lt_trans header.columns.toNat_lt (by decide))

/-- What arrives of a payload that can be sent: the message, or all rows, which fit the columns. -/
inductive Sends (types : List DataType) : Payload → Payload → Prop
  | failure (message : String) : Sends types (.failure message) (.failure message)
  | rows {bucket rows} : bucket.rows = .ok rows → (∀ row ∈ rows, row.Fits types) →
      (∀ row ∈ rows, row.IsFlat) → Sends types (.rows bucket) (.rows (.materialized rows))

theorem writePayload_spells (header : Header) {request : Request} {received : Payload}
    (h : Sends types request.payload received) (hfailure : header.isFailure = request.isFailure)
    (hcolumns : header.columns.toNat = types.length) :
    (match request.payload with
      | .failure message => Output.of (text message)
      | .rows bucket => writeRows types bucket).Spells (PayloadBody types header) received := by
  rcases request with ⟨job, producer, sequence, isLast, payload⟩
  cases h with
  | failure message => exact .of fun hlen => ⟨hfailure, .text hlen⟩
  | rows hrows hfits hflat =>
    exact (writeRows_spells hrows hfits hflat).mono fun bytes h => ⟨hfailure, hcolumns, h⟩

theorem writeBody_spells {request : Request} {received : Payload}
    (hcolumns : types.length < 2 ^ 32) (h : Sends types request.payload received) :
    (writeBody types request).Spells (Body types) { request with payload := received } := by
  let header : Header := ⟨request.job, request.isLast, request.isFailure, request.producer,
    request.sequence, UInt32.ofNat types.length⟩
  have hlen : header.columns.toNat = types.length := UInt32.toNat_ofNat_of_lt' hcolumns
  have hfront := Header.Body.written header
  rw [hlen] at hfront
  exact (writePayload_spells header h rfl hlen).of_append fun back _ hpayload =>
    ⟨header, _, back, rfl, hfront, ⟨rfl, rfl, rfl, rfl⟩, hpayload⟩

/-- What is encoded can be decoded, and comes out as it went in. Bytes that fit into memory are
fewer than words can count. -/
theorem decode_encode {request : Request} {received : Payload} (hcolumns : types.length < 2 ^ 32)
    (h : Sends types request.payload received) : ∃ bytes, encode types request = .ok bytes ∧
      (bytes.length < 2 ^ 64 → decode types bytes = .ok { request with payload := received }) := by
  obtain ⟨body, hbody, hspelled⟩ := writeBody_spells hcolumns h
  refine ⟨body ++ uint32 (checksum body), ?_, fun hlen => ?_⟩
  · rw [encode, if_neg (by omega), hbody]
    rfl
  · refine decode_eq_ok.mpr ⟨body, rfl, hspelled ?_⟩
    rw [List.length_append] at hlen
    omega

theorem decode_encode_streamed :
    let types := [DataType.long, .aggregationState, .float]
    let rows := [[.long (-5), .null, .float ⟨0x7fc00001⟩],
      [.null, .state (.extreme true (.string "b")), .null]]
    let request : Request := ⟨.nil, 1, 7, true, .rows (.streamed (rows.map .ok))⟩
    types.length < 2 ^ 32 ∧ Sends types request.payload (.rows (.materialized rows)) ∧
      ∃ bytes, encode types request = .ok bytes ∧ (bytes.length < 2 ^ 64 →
        decode types bytes = .ok { request with payload := .rows (.materialized rows) }) := by
  intro types rows request
  have hsends : Sends types request.payload (.rows (.materialized rows)) := by
    refine .rows rfl ?_ ?_
    · simp [rows, types, Row.Fits, Value.fits, Value.isNull, Value.dataType]
    · simp [rows, Row.IsFlat, Value.IsFlat, PartialState.IsFlat, Value.dataType]
  exact ⟨by decide, hsends, decode_encode (by decide) hsends⟩

end Request

end ShardQuery
