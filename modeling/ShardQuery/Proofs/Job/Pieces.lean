import ShardQuery.Proofs.Job.Sending
/-!
# Rows in pieces

The rows of a node travel in requests of bounded size. The number of requests depends
on the number of rows alone, no rows take one request, and the last request ends the
stream, also where the rows fill all requests.

`rows_sent`: which requests a node sends for its rows. Whoever decodes them and puts them
in the order of their numbers has these rows again.
-/

namespace ShardQuery

/-- Rows that can be sent: they fit the output types, of which there are not too many, and they fit
into memory, so that words can count them. -/
structure CollectPhase.Carries (phase : CollectPhase) (rows : List Row) : Prop where
  columns : phase.outputTypes.length < 2 ^ 32
  count : rows.length < 2 ^ 64
  fits : ∀ row ∈ rows, row.Fits phase.outputTypes
  flat : ∀ row ∈ rows, row.IsFlat

-- ---------------------------------------------------------------------------
-- Requests with rows
-- ---------------------------------------------------------------------------

namespace Request

def carried (request : Request) : List Row :=
  match request.payload with
  | .rows (.materialized rows) => rows
  | _ => []

/-- The rows of requests that arrived in any order, in the order of the requests' numbers. -/
def assemble (requests : List Request) : List Row :=
  (requests.mergeSort fun a b => a.sequence ≤ b.sequence).flatMap carried

theorem encode_rows {types : List DataType} {request : Request} {rows : List Row}
    (hcolumns : types.length < 2 ^ 32) (hrows : request.payload = .rows (.materialized rows))
    (hfits : ∀ row ∈ rows, row.Fits types) (hflat : ∀ row ∈ rows, row.IsFlat) :
    ∃ bytes, request.encode types = .ok bytes ∧
      (bytes.length < 2 ^ 64 → decode types bytes = .ok request) := by
  have hsends : Sends types request.payload request.payload := by
    rw [hrows]
    exact .rows rfl hfits hflat
  obtain ⟨body, hbody, hspelled⟩ := writeBody_spells hcolumns hsends
  refine ⟨body ++ Wire.uint32 (Wire.checksum body), ?_, fun hlen => ?_⟩
  · rw [encode, if_neg (by omega), hbody]
    rfl
  · rw [List.length_append] at hlen
    exact decode_eq_ok.mpr ⟨body, rfl, hspelled (by omega)⟩

theorem Written.mapM_eq {types : List DataType} {requests : List Request}
    {payloads : List (List UInt8)} (h : Written types requests payloads (.ok ())) :
    requests.mapM (encode types) = .ok payloads := by
  rw [mapM_eq_ok]
  generalize houtcome : Except.ok () = outcome at h
  induction h with
  | done => exact .nil
  | refused => cases houtcome
  | sent hencode _ ih => exact .cons hencode (ih houtcome)

end Request

namespace Node

open Request

variable {size : Nat} {rows : List Row}

-- ---------------------------------------------------------------------------
-- Pieces
-- ---------------------------------------------------------------------------

/-- The number of pieces: as many as are needed, and at least one. -/
def pieceCount (size : Nat) (rows : List Row) : Nat := max 1 ((rows.length + size - 1) / size)

def pieceAt (size : Nat) (rows : List Row) (i : Nat) : List Row := (rows.drop (i * size)).take size

theorem pieceCount_drop (hsize : 1 ≤ size) (h : size < rows.length) :
    pieceCount size rows = pieceCount size (rows.drop size) + 1 := by
  have hsum : rows.length + size - 1 = rows.length - size + size - 1 + size := by omega
  have hsome : size ≤ rows.length - size + size - 1 := by omega
  have hpos := Nat.div_pos hsome hsize
  rw [pieceCount, pieceCount, hsum, Nat.add_div_right _ hsize, List.length_drop]
  omega

theorem pieceAt_drop (size : Nat) (rows : List Row) (i : Nat) :
    pieceAt size (rows.drop size) i = pieceAt size rows (i + 1) := by
  rw [pieceAt, pieceAt, List.drop_drop, Nat.succ_mul, Nat.add_comm size]

theorem pieces_eq (hsize : 1 ≤ size) (rows : List Row) :
    pieces size rows = (List.range (pieceCount size rows)).map (pieceAt size rows) := by
  fun_induction pieces size rows with
  | case1 rows h =>
    have hfew : rows.length ≤ size := h.resolve_right (by omega)
    have hcount : pieceCount size rows = 1 := by
      have hle : (rows.length + size - 1) / size ≤ 1 := by
        rw [Nat.div_le_iff_le_mul_add_pred hsize]
        omega
      rw [pieceCount]
      omega
    simp [hcount, pieceAt, List.take_of_length_le hfew]
  | case2 rows h ih =>
    have hmany : size < rows.length := by omega
    rw [ih, pieceCount_drop hsize hmany, List.range_succ_eq_map, List.map_cons, List.map_map]
    have hfirst : pieceAt size rows 0 = rows.take size := by simp [pieceAt]
    rw [hfirst, funext (pieceAt_drop size rows)]
    rfl

theorem flatten_pieces (size : Nat) (rows : List Row) : (pieces size rows).flatten = rows := by
  fun_induction pieces size rows with
  | case1 rows h => simp
  | case2 rows h ih => rw [List.flatten_cons, ih, List.take_append_drop]

theorem pieceCount_le (hsize : 1 ≤ size) (h : rows.length < 2 ^ 64) :
    pieceCount size rows ≤ 2 ^ 64 := by
  have hle : (rows.length + size - 1) / size ≤ rows.length := by
    rw [Nat.div_le_iff_le_mul_add_pred hsize]
    have := Nat.le_mul_of_pos_left rows.length hsize
    omega
  rw [pieceCount]
  omega

-- ---------------------------------------------------------------------------
-- Numbered requests
-- ---------------------------------------------------------------------------

variable {phase : CollectPhase} {producer : UInt32}

def requestAt (phase : CollectPhase) (producer : UInt32) (count : Nat) (piece : Nat → List Row)
    (i : Nat) : Request :=
  ⟨phase.job, producer, UInt64.ofNat i, i + 1 = count, .rows (.materialized (piece i))⟩

theorem stream_eq (phase : CollectPhase) (producer : UInt32) (first count : Nat)
    (piece : Nat → List Row) :
    stream phase producer first ((List.range count).map piece) =
      (List.range count).map fun i =>
        { requestAt phase producer count piece i with sequence := UInt64.ofNat (first + i) } := by
  induction count generalizing first piece with
  | zero => rfl
  | succ count ih =>
    have hlast : ((List.range count).map (piece ∘ Nat.succ)).isEmpty =
        decide (0 + 1 = count + 1) := by
      cases count <;> simp
    simp only [List.range_succ_eq_map, List.map_cons, stream, List.map_map, hlast, ih]
    simp [requestAt, Nat.add_assoc, Nat.add_comm 1]

/-- Requests whose numbers are those of their places are put back into their order. -/
theorem assemble_perm {count : Nat} (hcount : count ≤ 2 ^ 64) (piece : Nat → List Row)
    {arrived : List Request}
    (h : arrived.Perm ((List.range count).map (requestAt phase producer count piece))) :
    assemble arrived = (List.range count).flatMap piece := by
  let requests := (List.range count).map (requestAt phase producer count piece)
  have hnumber {i : Nat} (hi : i < count) :
      (requestAt phase producer count piece i).sequence.toNat = i :=
    UInt64.toNat_ofNat_of_lt' (Nat.lt_of_lt_of_le hi hcount)
  have hsorted : requests.Pairwise fun a b => decide (a.sequence ≤ b.sequence) := by
    rw [List.pairwise_map]
    refine List.pairwise_lt_range.imp_of_mem fun {i j} hi hj hlt => ?_
    rw [List.mem_range] at hi hj
    rw [decide_eq_true_eq, UInt64.le_iff_toNat_le, hnumber hi, hnumber hj]
    exact hlt.le
  -- requests with one number are one request, so that only one order is sorted
  have hunique : ∀ a b, a ∈ requests → b ∈ requests → decide (a.sequence ≤ b.sequence) →
      decide (b.sequence ≤ a.sequence) → a = b := by
    intro a b ha hb hab hba
    obtain ⟨i, hi, rfl⟩ := List.mem_map.mp ha
    obtain ⟨j, hj, rfl⟩ := List.mem_map.mp hb
    rw [List.mem_range] at hi hj
    rw [decide_eq_true_eq, UInt64.le_iff_toNat_le, hnumber hi, hnumber hj] at hab hba
    rw [Nat.le_antisymm hab hba]
  have hperm := (arrived.mergeSort_perm fun a b => decide (a.sequence ≤ b.sequence)).trans h
  have hsort : (arrived.mergeSort fun a b => decide (a.sequence ≤ b.sequence)) = requests := by
    refine hperm.eq_of_pairwise (fun a b ha hb => hunique a b (hperm.mem_iff.mp ha) hb)
      (List.pairwise_mergeSort ?_ ?_ arrived) hsorted
    · simp only [decide_eq_true_eq]
      exact fun a b c => UInt64.le_trans
    · simp only [Bool.or_eq_true, decide_eq_true_eq]
      exact fun a b => UInt64.le_total _ _
  rw [assemble, hsort, List.flatMap_map]
  rfl

-- ---------------------------------------------------------------------------
-- All rows
-- ---------------------------------------------------------------------------

/-- Over a transport that accepts every payload a node sends its rows in as many requests as pieces
are needed, and in one if there are no rows. The requests carry the pieces in their order, are
numbered from zero, and only the last of them says that it is the last. As long as they fit into
memory they can be decoded, and in whatever order they arrive they come to the rows again once they
are put into the order of their numbers. -/
theorem rows_sent {node : Node} {phase : CollectPhase} {rows : List Row} (producer : UInt32)
    (state : NodeState) (hsize : 1 ≤ node.rowsPerRequest) (hcarries : phase.Carries rows)
    (hopen : state.outbox.capacity = none) :
    let size := node.rowsPerRequest
    let run := (node.sendRows phase producer rows).within state
    let count := max 1 ((rows.length + size - 1) / size)
    let requests := (List.range count).map fun i => (⟨phase.job, producer, UInt64.ofNat i,
      i + 1 = count, .rows (.materialized ((rows.drop (i * size)).take size))⟩ : Request)
    ∃ payloads, run.1 = .ok () ∧
      run.2.outbox.sent = state.outbox.sent ++ payloads.map (phase.mergeNode, ·) ∧
      requests.mapM (encode phase.outputTypes) = .ok payloads ∧
      ((∀ payload ∈ payloads, payload.length < 2 ^ 64) →
        payloads.mapM (decode phase.outputTypes) = .ok requests) ∧
      ∀ arrived, arrived.Perm requests → assemble arrived = rows := by
  intro size run count requests
  have hstream : stream phase producer 0 (pieces size rows) = requests := by
    rw [pieces_eq hsize, stream_eq]
    simp only [Nat.zero_add]
    rfl
  have hwritable : ∀ request ∈ requests, ∃ payload,
      request.encode phase.outputTypes = .ok payload ∧
        (payload.length < 2 ^ 64 → decode phase.outputTypes payload = .ok request) := by
    intro request hrequest
    obtain ⟨i, -, rfl⟩ := List.mem_map.mp hrequest
    have hpiece : ∀ row ∈ (rows.drop (i * size)).take size, row ∈ rows :=
      fun row hrow => List.mem_of_mem_drop (List.mem_of_mem_take hrow)
    exact encode_rows hcarries.columns rfl (fun row hrow => hcarries.fits row (hpiece row hrow))
      fun row hrow => hcarries.flat row (hpiece row hrow)
  obtain ⟨payloads, hwritten, hadds⟩ := Sends.pieces (pieces size rows) 0 state hopen
  rw [hstream] at hwritten
  have hok : run.1 = .ok () := hwritten.ok_iff.mpr fun request hrequest =>
    (hwritable request hrequest).imp fun _ => And.left
  have hencoded : requests.mapM (encode phase.outputTypes) = .ok payloads :=
    Written.mapM_eq (hok ▸ hwritten)
  refine ⟨payloads, hok, congrArg Outbox.sent hadds, hencoded, fun hmemory => ?_, ?_⟩
  · rw [mapM_eq_ok] at hencoded ⊢
    have hpairs := (List.forall₂_and_left _ _).mpr ⟨hwritable, hencoded⟩
    refine ((List.forall₂_and_left _ _).mpr ⟨hmemory, hpairs.flip⟩).imp ?_
    rintro payload request ⟨hlen, ⟨bytes, hbytes, hdecode⟩, hpayload⟩
    cases hbytes.symm.trans hpayload
    exact hdecode hlen
  · intro arrived harrived
    rw [assemble_perm (pieceCount_le hsize hcarries.count) (pieceAt size rows) harrived,
      List.flatMap_def]
    exact (congrArg List.flatten (pieces_eq hsize rows)).symm.trans (flatten_pieces size rows)

theorem rows_sent_full :
    let node : Node := ⟨"n", .standard, 2⟩
    let phase : CollectPhase := ⟨.nil, [], [], [.long, .string], "m"⟩
    let rows : List Row := [[.long 1, .null], [.null, .string "b"], [.null, .null],
      [.long (-4), .string ""]]
    let state : NodeState := ⟨.empty, .start .error, .empty⟩
    1 ≤ node.rowsPerRequest ∧ phase.Carries rows ∧ state.outbox.capacity = none ∧
    let size := node.rowsPerRequest
    let run := (node.sendRows phase 7 rows).within state
    let count := max 1 ((rows.length + size - 1) / size)
    let requests := (List.range count).map fun i => (⟨phase.job, 7, UInt64.ofNat i,
      i + 1 = count, .rows (.materialized ((rows.drop (i * size)).take size))⟩ : Request)
    ∃ payloads, run.1 = .ok () ∧
      run.2.outbox.sent = state.outbox.sent ++ payloads.map (phase.mergeNode, ·) ∧
      requests.mapM (encode phase.outputTypes) = .ok payloads ∧
      ((∀ payload ∈ payloads, payload.length < 2 ^ 64) →
        payloads.mapM (decode phase.outputTypes) = .ok requests) ∧
      ∀ arrived, arrived.Perm requests → assemble arrived = rows := by
  intro node phase rows state
  have hsize : 1 ≤ node.rowsPerRequest := by decide
  have hcarries : phase.Carries rows := by
    constructor
    · simp [phase]
    · simp [rows]
    · simp [rows, phase, Row.Fits, Value.fits, Value.isNull, Value.dataType]
    · simp [rows, Row.IsFlat, Value.IsFlat, PartialState.IsFlat, Value.dataType]
  exact ⟨hsize, hcarries, rfl, rows_sent 7 state hsize hcarries rfl⟩

end Node

end ShardQuery
