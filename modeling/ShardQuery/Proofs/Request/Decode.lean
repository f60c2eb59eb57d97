import ShardQuery.Proofs.Request.Rows
/-!
# Requests that are decoded

The grammar of a whole request, and the bytes that are decoded: a spelled body with
its checksum behind it, and nothing else.
-/

namespace ShardQuery.Request

open Wire

-- ---------------------------------------------------------------------------
-- The grammar
-- ---------------------------------------------------------------------------

/-- What comes before the rows: version 1, the job, two flags, and three numbers. -/
def Header.Body : Grammar Header := fun bytes header =>
  ∃ flags producer sequence columns,
    bytes = 1 :: header.job.bytes ++ flags :: producer ++ sequence ++ columns ∧
    flags.toNat ≤ 3 ∧ header.isLast = flags.toNat.testBit 0 ∧
    header.isFailure = flags.toNat.testBit 1 ∧ Varint producer header.producer.toNat ∧
    Varint sequence header.sequence.toNat ∧ Varint columns header.columns.toNat

/-- A message where the header says that there was a failure, else rows of as many columns as the
header says. -/
def PayloadBody (types : List DataType) (header : Header) : Grammar Payload
  | bytes, .failure message => header.isFailure = true ∧ Reader.Spelling bytes message
  | bytes, .rows (.materialized rows) => header.isFailure = false ∧
      header.columns.toNat = types.length ∧ RowsBody types bytes rows
  | _, .rows (.streamed _) => False

structure Header.Agrees (header : Header) (request : Request) : Prop where
  job : header.job = request.job
  producer : header.producer = request.producer
  sequence : header.sequence = request.sequence
  isLast : header.isLast = request.isLast

def Body (types : List DataType) : Grammar Request := fun bytes request =>
  ∃ header front back, bytes = front ++ back ∧ Header.Body front header ∧
    header.Agrees request ∧ PayloadBody types header back request.payload

variable {types : List DataType} {bytes body : List UInt8} {request : Request}

-- ---------------------------------------------------------------------------
-- The reader
-- ---------------------------------------------------------------------------

def Header.Numbers (job : JobId) (flags : UInt8) : Grammar Header := fun bytes header =>
  ∃ producer sequence columns, bytes = producer ++ sequence ++ columns ∧ header.job = job ∧
    header.isLast = flags.toNat.testBit 0 ∧ header.isFailure = flags.toNat.testBit 1 ∧
    Varint producer header.producer.toNat ∧ Varint sequence header.sequence.toNat ∧
    Varint columns header.columns.toNat

def Header.readNumbers (job : JobId) (flags : UInt8) : Reader Header := do
  let producer ← Reader.vint
  let sequence ← Reader.vlong
  return ⟨job, flags.toNat.testBit 0, flags.toNat.testBit 1, producer, sequence, ← Reader.vint⟩

theorem Header.readNumbers_reads (job : JobId) (flags : UInt8) :
    (readNumbers job flags).Reads (Numbers job flags) := by
  refine (Reader.vint_reads.bind fun producer => Reader.vlong_reads.bind fun sequence =>
    Reader.vint_reads.map fun columns => (⟨job, flags.toNat.testBit 0, flags.toNat.testBit 1,
      producer, sequence, columns⟩ : Header)).congr fun bytes header => ?_
  constructor
  · rintro ⟨_, _, _, rfl, hp, _, _, _, rfl, hs, _, hc, rfl⟩
    exact ⟨_, _, _, (List.append_assoc ..).symm, rfl, rfl, rfl, hp, hs, hc⟩
  · rcases header with ⟨job, isLast, isFailure, p, s, c⟩
    rintro ⟨producer, sequence, columns, rfl, rfl, rfl, rfl, hp, hs, hc⟩
    exact ⟨_, _, _, List.append_assoc .., hp, _, _, _, rfl, hs, _, hc, rfl⟩

theorem Header.read_reads : Header.read.Reads Header.Body := by
  refine (Reader.Reads.byte_bind fun version => .check fun _ => Reader.job_reads.bind fun job =>
    .byte_bind fun flags => .check fun _ => readNumbers_reads job flags).congr
      fun bytes header => ?_
  constructor
  · rintro ⟨version, _, rfl, hversion, _, job, _, rfl, rfl, flags, _, rfl, hflags, hnumbers⟩
    obtain ⟨p, s, c, rfl, rfl, hnumbers⟩ := hnumbers
    obtain rfl : version = 1 := by simpa [Request.version] using hversion
    exact ⟨flags, p, s, c, by simp, by omega, hnumbers⟩
  · rintro ⟨flags, p, s, c, rfl, hflags, hnumbers⟩
    refine ⟨1, header.job.bytes ++ flags :: (p ++ s ++ c), by simp, by decide, ?_⟩
    exact ⟨_, header.job, _, rfl, rfl, flags, _, rfl, by omega, p, s, c, rfl, rfl, hnumbers⟩

theorem readPayload_reads (types : List DataType) (header : Header) :
    (readPayload types header).Reads (PayloadBody types header) := by
  unfold readPayload
  split
  · rename_i hfailure
    refine (Reader.text_reads.map Payload.failure).congr fun bytes payload => ?_
    rcases payload with ⟨_ | _⟩ | message <;> simp [PayloadBody, hfailure]
  · rename_i hrows
    refine (Reader.Reads.check fun _ => (readRows_reads types).map fun rows =>
      Payload.rows (.materialized rows)).congr fun bytes payload => ?_
    rcases payload with ⟨_ | _⟩ | message <;> simp [PayloadBody, hrows]

/-- A request and whatever stands behind it. -/
def readSpelled (types : List DataType) : Reader Request := do
  let header ← Header.read
  let payload ← readPayload types header
  return ⟨header.job, header.producer, header.sequence, header.isLast, payload⟩

theorem readSpelled_reads (types : List DataType) : (readSpelled types).Reads (Body types) := by
  refine (Header.read_reads.bind fun header => (readPayload_reads types header).map fun payload =>
    (⟨header.job, header.producer, header.sequence, header.isLast, payload⟩ : Request)).congr
      fun bytes request => ?_
  constructor
  · rintro ⟨front, header, back, rfl, hheader, payload, hpayload, rfl⟩
    exact ⟨header, front, back, rfl, hheader, ⟨rfl, rfl, rfl, rfl⟩, hpayload⟩
  · rcases request with ⟨_, _, _, _, payload⟩
    rintro ⟨header, front, back, rfl, hheader, ⟨rfl, rfl, rfl, rfl⟩, hpayload⟩
    exact ⟨front, header, back, rfl, hheader, payload, hpayload, rfl⟩

def readEnd (request : Request) : Reader Request := do
  let left ← Reader.remaining
  if left ≠ 0 then Reader.fail s!"{left} trailing bytes after result request"
  return request

theorem readEnd_readsAt (request : Request) (c : Cursor) : (readEnd request).ReadsAt
    (fun bytes r => ¬ c.rest.length ≠ 0 ∧ Grammar.empty request bytes r) c :=
  .remaining_bind (.check fun _ => .pure request)

theorem read_eq (types : List DataType) : read types = readSpelled types >>= readEnd := by
  simp only [read, readSpelled, bind_assoc, pure_bind]
  rfl

theorem read_readsAt (types : List DataType) (c : Cursor) :
    (read types).ReadsAt (fun bytes request => bytes = c.rest ∧ Body types bytes request) c := by
  rw [read_eq]
  constructor
  · rintro _ request d ⟨rfl, hbody⟩ hp
    have hd : d.rest.length = 0 := by simpa using hp.length_rest
    have hend := (readEnd_readsAt request d).complete ⟨not_not.mpr hd, rfl, rfl⟩ (.refl d)
    exact Work.bind_within_ok.mpr ⟨request, d, (readSpelled_reads types c).complete hbody hp, hend⟩
  · intro request d hr
    obtain ⟨_, u, hr, hend⟩ := Work.bind_within_ok.mp hr
    obtain ⟨bytes, hp, hbody⟩ := (readSpelled_reads types c).sound hr
    obtain ⟨_, hp', hu, rfl, rfl⟩ := (readEnd_readsAt _ u).sound hend
    obtain rfl := Cursor.Passed.nil_iff.mp hp'
    refine ⟨bytes, hp, ?_, hbody⟩
    rw [hp.rest, List.length_eq_zero_iff.mp (not_not.mp hu), List.append_nil]
  · intro e d hr
    rcases Work.bind_within_error.mp hr with hr | ⟨request, u, hr, hend⟩
    · exact (readSpelled_reads types c).fault hr
    · obtain ⟨bytes, hp, -⟩ := (readSpelled_reads types c).sound hr
      obtain ⟨⟨bytes', hp'⟩, he⟩ := (readEnd_readsAt request u).fault hend
      exact ⟨⟨bytes ++ bytes', hp.trans hp'⟩, he⟩

-- ---------------------------------------------------------------------------
-- Checksums
-- ---------------------------------------------------------------------------

theorem verifiedBody_eq_ok :
    verifiedBody bytes = .ok body ↔ bytes = body ++ uint32 (checksum body) := by
  have hsum (body sum : List UInt8) : sum.length = 4 ∧
      Reader.ofLittleEndian sum = (checksum body).toNat ↔ sum = uint32 (checksum body) :=
    Reader.exact_littleEndian (checksum body).toNat_lt
  unfold verifiedBody
  constructor
  · intro h
    split at h
    · cases h
    · rename_i hlen
      dsimp only at h
      split at h
      · rename_i hequal
        cases h
        have hdrop : (bytes.drop (bytes.length - 4)).length = 4 := by
          rw [List.length_drop]
          omega
        rw [← (hsum _ _).mp ⟨hdrop, hequal⟩, List.take_append_drop]
      · cases h
  · rintro rfl
    obtain ⟨hlen, hequal⟩ := (hsum body _).mpr rfl
    have hbody : (body ++ uint32 (checksum body)).length - 4 = body.length := by
      rw [List.length_append, hlen, Nat.add_sub_cancel]
    rw [if_neg (by rw [List.length_append]; omega), hbody, List.take_left, List.drop_left]
    exact if_pos hequal

theorem verifiedBody_error {e : EngineError} (h : verifiedBody bytes = .error e) :
    IsSerialization e := by
  unfold verifiedBody at h
  split at h
  · cases h
    exact ⟨_, rfl⟩
  · dsimp only at h
    split at h
    · cases h
    · cases h
      exact ⟨_, rfl⟩

-- ---------------------------------------------------------------------------
-- Requests
-- ---------------------------------------------------------------------------

theorem start_eq_ok : ((read types).start body).1 = .ok request ↔ Body types body request := by
  constructor
  · intro h
    obtain ⟨_, -, rfl, hbody⟩ := (read_readsAt types (.start body)).sound (Prod.ext h rfl)
    exact hbody
  · intro hbody
    have hp := Cursor.Passed.start body []
    rw [List.append_nil] at hp
    exact congrArg Prod.fst ((read_readsAt types (.start body)).complete ⟨rfl, hbody⟩ hp)

theorem start_error {e : EngineError} (h : ((read types).start body).1 = .error e) :
    IsSerialization e :=
  ((read_readsAt types (.start body)).fault (Prod.ext h rfl)).2

/-- Wherever the reading of a body ends, it has taken no more than the body. -/
theorem start_passed (types : List DataType) (body : List UInt8) :
    ∃ taken, (Cursor.start body).Passed taken ((read types).start body).2 := by
  cases h : ((read types).start body).1 with
  | ok request =>
    obtain ⟨taken, hp, -⟩ := (read_readsAt types (.start body)).sound (Prod.ext h rfl)
    exact ⟨taken, hp⟩
  | error e => exact ((read_readsAt types (.start body)).fault (Prod.ext h rfl)).1

theorem decode_eq_ok : decode types bytes = .ok request ↔
    ∃ body, bytes = body ++ uint32 (checksum body) ∧ Body types body request := by
  simp only [decode, bind_eq_ok, verifiedBody_eq_ok, start_eq_ok]

theorem decode_error {e : EngineError} (h : decode types bytes = .error e) :
    IsSerialization e := by
  unfold decode at h
  cases hbody : verifiedBody bytes with
  | error e' =>
    rw [hbody] at h
    cases h
    exact verifiedBody_error hbody
  | ok body =>
    rw [hbody] at h
    exact start_error h

theorem Body.peek (h : Body types body request) : ∃ header,
    Header.peek (body ++ uint32 (checksum body)) = .ok header ∧ header.Agrees request := by
  obtain ⟨header, front, back, rfl, hheader, hagrees, -⟩ := h
  refine ⟨header, ?_, hagrees⟩
  rw [Header.peek, verifiedBody_eq_ok.mpr rfl]
  exact congrArg Prod.fst ((Header.read_reads _).complete hheader (.start front back))

theorem Body.rows_fit {bucket : Bucket} (h : Body types body request)
    (hrows : request.payload = .rows bucket) :
    ∃ rows, bucket = .materialized rows ∧ ∀ row ∈ rows, row.Fits types := by
  obtain ⟨header, _, back, -, -, -, hpayload⟩ := h
  rw [hrows] at hpayload
  cases bucket with
  | materialized rows => exact ⟨rows, rfl, hpayload.2.2.fits⟩
  | streamed items => exact hpayload.elim

/-- Bytes are decoded to a request exactly if they are a spelling of it and the checksum of that
spelling. Its rows then fit the columns, and its header can be read alone. All other bytes give an
error of serialization, and nothing behind the body is read. -/
theorem decode_spelled (types : List DataType) (bytes : List UInt8) :
    (∀ request, decode types bytes = .ok request ↔
      ∃ body, bytes = body ++ uint32 (checksum body) ∧ Body types body request) ∧
    ((∃ request, decode types bytes = .ok request) ∨
      ∃ reason, decode types bytes = .error (.serialization reason)) ∧
    (∀ request, decode types bytes = .ok request →
      (∀ bucket, request.payload = .rows bucket →
        ∃ rows, bucket = .materialized rows ∧ ∀ row ∈ rows, row.Fits types) ∧
      ∃ header, Header.peek bytes = .ok header ∧ header.Agrees request) ∧
    ∀ body, verifiedBody bytes = .ok body →
      ∃ taken, (Cursor.start body).Passed taken ((read types).start body).2 := by
  refine ⟨fun request => decode_eq_ok, ?_, fun request h => ?_,
    fun body _ => start_passed types body⟩
  · cases h : decode types bytes with
    | ok request => exact .inl ⟨request, rfl⟩
    | error e =>
      obtain ⟨reason, rfl⟩ := decode_error h
      exact .inr ⟨reason, rfl⟩
  · obtain ⟨body, rfl, hbody⟩ := decode_eq_ok.mp h
    exact ⟨fun bucket hrows => hbody.rows_fit hrows, hbody.peek⟩

end ShardQuery.Request
