import ShardQuery.Wire.Output
import ShardQuery.Work
/-!
# Reading bytes

A cursor moves over the bytes. Where a read fails the cursor stays behind the
bytes that the read took, so that reading can go on from there. Nothing is ever
read past the end.
-/

namespace ShardQuery.Wire

/-- The bytes still to be read and the number of those before them. -/
structure Cursor where
  position : Nat
  rest : List UInt8

def Cursor.start (bytes : List UInt8) : Cursor := ⟨0, bytes⟩

abbrev Reader (α : Type) := Work Cursor α

namespace Reader

/-- The result of reading `bytes` from their start, and where the cursor then stands. -/
def start {α : Type} (reader : Reader α) (bytes : List UInt8) : Except EngineError α × Cursor :=
  reader.within (.start bytes)

def fail {α : Type} (reason : String) : Reader α := throw (.serialization reason)

def remaining : Reader Nat := do return (← get).rest.length

def fallShort {α : Type} (count : Nat) (cursor : Cursor) : Reader α :=
  let place := s!"needed {count} bytes at offset {cursor.position}"
  fail s!"unexpected end of input: {place}, {cursor.rest.length} remaining"

/-- Exactly `count` bytes; none are taken if there are fewer. -/
def exact (count : Nat) : Reader (List UInt8) := do
  let cursor ← get
  let taken := cursor.rest.take count
  if taken.length < count then fallShort count cursor
  else
    set (⟨cursor.position + count, cursor.rest.drop count⟩ : Cursor)
    return taken

def byte : Reader UInt8 := do
  let cursor ← get
  match cursor.rest with
  | [] => fallShort 1 cursor
  | b :: rest =>
    set (⟨cursor.position + 1, rest⟩ : Cursor)
    return b

def bool : Reader Bool := do
  let b ← byte
  if b = 0 then return false
  else if b = 1 then return true
  else fail s!"invalid boolean byte 0x{Hex.ofNat 2 b.toNat}"

def ofLittleEndian : List UInt8 → Nat
  | [] => 0
  | b :: rest => b.toNat + 256 * ofLittleEndian rest

def uint32 : Reader UInt32 := do return UInt32.ofNat (ofLittleEndian (← exact 4))

/-- The digits of a varint from the one at `index` on, with `left` of ten bytes still allowed. The
tenth byte carries a single bit. -/
def varintFrom : (left index value : Nat) → Reader Nat
  | 0, _, _ => fail "varint longer than 10 bytes"
  | left + 1, index, value => do
    let b ← byte
    let digit := b.toNat % 128
    if left = 0 ∧ 1 < digit then fail "varint overflows u64"
    else
      let value := value + digit * Nat.pow 128 index
      if b.toNat < 128 then return value else varintFrom left (index + 1) value

def vlong : Reader UInt64 := do return UInt64.ofNat (← varintFrom 10 0 0)

def vint : Reader UInt32 := do
  let n ← vlong
  if n.toNat < 0x100000000 then return UInt32.ofNat n.toNat else fail s!"varint {n} overflows u32"

def zlong : Reader Int64 := do return unzigzag (← vlong)

def zint : Reader Int32 := do
  let n ← zlong
  if -0x80000000 ≤ n.toInt ∧ n.toInt < 0x80000000 then return Int32.ofInt n.toInt
  else fail s!"zig-zag value {n} overflows i32"

def single : Reader Single := do return ⟨UInt32.ofNat (ofLittleEndian (← exact 4))⟩

def double : Reader Double := do return ⟨UInt64.ofNat (ofLittleEndian (← exact 8))⟩

/-- A length, which must not exceed the bytes left. -/
def length : Reader Nat := do
  let n ← vlong
  let left ← remaining
  if left < n.toNat then fail s!"declared length {n} exceeds {left} remaining bytes"
  else return n.toNat

def text : Reader String := do
  let bytes ← exact (← length)
  match Utf8.decode bytes with
  | .ok s => return s
  | .error fault => fail s!"invalid UTF-8: {fault.message}"

def job : Reader JobId := do
  match JobId.ofBytes? (← exact 16) with
  | some id => return id
  | none => fail "invalid job id"

def times {α : Type} (item : Reader α) : Nat → Reader (List α)
  | 0 => return []
  | count + 1 => do
    let x ← item
    return x :: (← times item count)

def list {α : Type} (item : Reader α) : Reader (List α) := do times item (← length)

end Reader

end ShardQuery.Wire
