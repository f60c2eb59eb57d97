import ShardQuery.Error
import ShardQuery.Number.Single
import ShardQuery.Text.Utf8
/-!
# Writing bytes

Integers that are usually small take one byte for seven bits; signed ones are
folded onto unsigned ones first. Numbers of a fixed width are little-endian. Text
is its length in bytes followed by UTF-8.
-/

namespace ShardQuery.Wire

/-- Folds signed words onto unsigned ones, so that small magnitudes stay small: 0, -1, 1, -2, … -/
def zigzag (n : Int64) : UInt64 :=
  UInt64.ofNat (if 0 ≤ n.toInt then 2 * n.toInt else -2 * n.toInt - 1).toNat

def unzigzag (n : UInt64) : Int64 :=
  Int64.ofInt (if n.toNat % 2 = 0 then (n.toNat / 2 : Int) else -(n.toNat / 2 : Int) - 1)

def bool (b : Bool) : List UInt8 := [if b then 1 else 0]

/-- The `count` lowest bytes of `n`, the lowest first. -/
def littleEndian : (count n : Nat) → List UInt8
  | 0, _ => []
  | count + 1, n => UInt8.ofNat n :: littleEndian count (n / 256)

/-- Seven bits a byte, the lowest first, every byte but the last with its top bit set. -/
def varint (n : Nat) : List UInt8 :=
  if n < 128 then [UInt8.ofNat n] else UInt8.ofNat (n % 128 + 128) :: varint (n / 128)
termination_by n
decreasing_by omega

def uint32 (n : UInt32) : List UInt8 := littleEndian 4 n.toNat

def vint (n : UInt32) : List UInt8 := varint n.toNat

def vlong (n : UInt64) : List UInt8 := varint n.toNat

def zlong (n : Int64) : List UInt8 := varint (zigzag n).toNat

def zint (n : Int32) : List UInt8 := zlong n.toInt64

def single (x : Single) : List UInt8 := littleEndian 4 x.bits.toNat

def double (x : Double) : List UInt8 := littleEndian 8 x.bits.toNat

def text (s : String) : List UInt8 :=
  let bytes := Utf8.encode s
  varint bytes.length ++ bytes

def job (id : JobId) : List UInt8 := id.bytes

def list {α : Type} (item : α → List UInt8) (items : List α) : List UInt8 :=
  varint items.length ++ items.flatMap item

/-- Bytes that were written, and the error that ended the writing, if one did. -/
structure Output where
  bytes : List UInt8
  error : Option EngineError

namespace Output

def of (bytes : List UInt8) : Output := ⟨bytes, none⟩

def fail (error : EngineError) : Output := ⟨[], some error⟩

/-- Writing goes on only after a success. -/
def andThen (first second : Output) : Output :=
  match first.error with
  | some _ => first
  | none => ⟨first.bytes ++ second.bytes, second.error⟩

instance : Append Output := ⟨andThen⟩

def each {α : Type} (item : α → Output) : List α → Output
  | [] => of []
  | x :: rest => item x ++ each item rest

def list {α : Type} (item : α → Output) (items : List α) : Output :=
  of (varint items.length) ++ each item items

def toExcept (output : Output) : Except EngineError (List UInt8) :=
  match output.error with
  | some error => .error error
  | none => .ok output.bytes

end Output

end ShardQuery.Wire
