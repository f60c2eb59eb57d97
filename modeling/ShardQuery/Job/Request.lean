import ShardQuery.Bucket
import ShardQuery.Value.Wire
import ShardQuery.Wire.Checksum
/-!
# Requests

Results travel in requests: a version, the job, flags, the producer and its place in
the producer's sequence, the number of columns, and then rows or the message of a
failure. The last four bytes are the checksum of all others.

Rows whose number is known are preceded by the successor of their number. Others
are preceded by a zero; each has a byte 1 in front and a byte 0 follows the last
one. A row is a bitmap of its nulls and the bodies of its other values.
-/

namespace ShardQuery

open Wire

inductive Payload where
  | rows (bucket : Bucket)
  | failure (message : String)
deriving Inhabited

structure Request where
  job : JobId
  producer : UInt32
  /-- The place among the requests of the producer. -/
  sequence : UInt64
  /-- Whether the producer sends no more. -/
  isLast : Bool
  payload : Payload
deriving Inhabited

namespace Request

def version : UInt8 := 1

def rowCount? (request : Request) : Option Nat :=
  match request.payload with
  | .rows bucket => bucket.size?
  | .failure _ => some 0

def ofFailure (job : JobId) (producer : UInt32) (message : String) : Request :=
  ⟨job, producer, 0, true, .failure message⟩

def byteOfBits (bits : List Bool) : UInt8 :=
  UInt8.ofNat (bits.foldr (fun bit n => 2 * n + bit.toNat) 0)

/-- Eight bits a byte; the last byte is filled up with zeros. -/
def packBits : List Bool → List UInt8
  | [] => []
  | bit :: bits => byteOfBits (bit :: bits.take 7) :: packBits (bits.drop 7)
termination_by bits => bits.length
decreasing_by simp only [List.length_drop, List.length_cons]; omega

def bitsOfByte (b : UInt8) : List Bool := (List.range 8).map b.toNat.testBit

def bitmapLength (columns : Nat) : Nat := (columns + 7) / 8

def writeRow (types : List DataType) (row : Row) : Output :=
  if row.length ≠ types.length then
    .fail (.serialization s!"row has {row.length} columns, expected {types.length}")
  else
    .of (packBits (row.map Value.isNull)) ++
      .each (fun (value, type) => if value.isNull then .of [] else value.writeBody type)
        (row.zip types)

/-- Rows of a source, each announced. -/
def writeItems (types : List DataType) : List Item → Output
  | [] => .of [0]
  | .ok row :: rest => .of [1] ++ writeRow types row ++ writeItems types rest
  | .error error :: _ => .of [1] ++ .fail error

/-- Rows at hand are counted, unless there are no columns. -/
def writeRows (types : List DataType) : Bucket → Output
  | .materialized rows =>
    if types.isEmpty then .of (varint 0) ++ writeItems types (rows.map .ok)
    else .of (varint (rows.length + 1)) ++ .each (writeRow types) rows
  | .streamed items => .of (varint 0) ++ writeItems types items

def isFailure (request : Request) : Bool :=
  match request.payload with
  | .failure _ => true
  | .rows _ => false

def writeBody (types : List DataType) (request : Request) : Output :=
  let flags := byteOfBits [request.isLast, request.isFailure]
  .of (version :: Wire.job request.job ++ flags :: vint request.producer ++
      vlong request.sequence ++ varint types.length) ++
    match request.payload with
    | .failure message => .of (text message)
    | .rows bucket => writeRows types bucket

def encode (types : List DataType) (request : Request) : Except EngineError (List UInt8) :=
  if 0x100000000 ≤ types.length then .error (.serialization "too many columns")
  else do
    let body ← (writeBody types request).toExcept
    return body ++ uint32 (checksum body)

/-- The bytes without the checksum behind them, if that is right. -/
def verifiedBody (bytes : List UInt8) : Except EngineError (List UInt8) :=
  if bytes.length < 4 then
    .error (.serialization s!"result request of {bytes.length} bytes has no checksum")
  else
    let body := bytes.take (bytes.length - 4)
    let expected := Reader.ofLittleEndian (bytes.drop (bytes.length - 4))
    let actual := (checksum body).toNat
    if expected = actual then .ok body
    else
      let sums := s!"expected 0x{Hex.ofNat 8 expected}, got 0x{Hex.ofNat 8 actual}"
      .error (.serialization s!"result request checksum mismatch: {sums}")

structure Header where
  job : JobId
  isLast : Bool
  isFailure : Bool
  producer : UInt32
  sequence : UInt64
  columns : UInt32
deriving Inhabited

namespace Header

def read : Reader Header := do
  let version ← Reader.byte
  if version ≠ Request.version then
    Reader.fail s!"unsupported result request version {version}"
  let job ← Reader.job
  let flags ← Reader.byte
  if 4 ≤ flags.toNat then
    Reader.fail s!"unknown result request flags 0x{Hex.ofNat 2 flags.toNat}"
  let producer ← Reader.vint
  let sequence ← Reader.vlong
  return ⟨job, flags.toNat.testBit 0, flags.toNat.testBit 1, producer, sequence, ← Reader.vint⟩

def peek (bytes : List UInt8) : Except EngineError Header := do
  (read.start (← verifiedBody bytes)).1

end Header

/-- The values of a row, given which of them are null. -/
def readValues : List Bool → List DataType → Reader Row
  | isNull :: bits, type :: types => do
    let value ← if isNull then pure .null else Value.readBody type
    return value :: (← readValues bits types)
  | _, _ => return []

def readRow (types : List DataType) : Reader Row := do
  let bitmap ← Reader.exact (bitmapLength types.length)
  let bits := bitmap.flatMap bitsOfByte
  if (bits.drop types.length).contains true then
    Reader.fail "null bitmap has padding bits set"
  readValues (bits.take types.length) types

/-- Rows up to the byte that ends them. Every row takes a byte, so `fuel` need not exceed the
number of bytes left. -/
def readItems (types : List DataType) : (fuel : Nat) → Reader (List Row)
  | 0 => do
    discard Reader.byte
    return []
  | fuel + 1 => do
    let more ← Reader.byte
    if more = 1 then
      let row ← readRow types
      return row :: (← readItems types fuel)
    else if more = 0 then return []
    else Reader.fail s!"invalid row continuation byte {more}"

def readRows (types : List DataType) : Reader (List Row) := do
  let encoded ← Reader.vlong
  let left ← Reader.remaining
  if encoded = 0 then readItems types left
  else
    let count := encoded.toNat - 1
    let least := bitmapLength types.length
    if least = 0 ∧ 0 < count then Reader.fail "rows without columns must be streamed"
    if 0 < least ∧ left / least < count then
      Reader.fail s!"row count {count} exceeds the {left} remaining bytes"
    Reader.times (readRow types) count

def readPayload (types : List DataType) (header : Header) : Reader Payload := do
  if header.isFailure then return .failure (← Reader.text)
  let columns := header.columns.toNat
  if columns ≠ types.length then
    let counts := s!"carries {columns} columns, expected {types.length}"
    Reader.fail s!"request for job {header.job} {counts}"
  return .rows (.materialized (← readRows types))

def read (types : List DataType) : Reader Request := do
  let header ← Header.read
  let payload ← readPayload types header
  let left ← Reader.remaining
  if left ≠ 0 then Reader.fail s!"{left} trailing bytes after result request"
  return ⟨header.job, header.producer, header.sequence, header.isLast, payload⟩

def decode (types : List DataType) (bytes : List UInt8) : Except EngineError Request := do
  ((read types).start (← verifiedBody bytes)).1

end Request

end ShardQuery
