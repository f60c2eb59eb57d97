import ShardQuery.Wire.Input
/-!
# Data types

The closed set of column types. The id of a type is its byte on the wire.
-/

namespace ShardQuery

inductive DataType where
  /-- The type of a null without a type. -/
  | undefined
  | boolean
  | byte
  | short
  | integer
  | long
  | float
  | double
  | string
  /-- Milliseconds since the start of 1970. -/
  | timestamp
  | aggregationState
deriving DecidableEq, Inhabited, Repr

namespace DataType

def all : List DataType :=
  [undefined, boolean, byte, short, integer, long, float, double, string, timestamp,
    aggregationState]

def id : DataType → Nat
  | undefined => 0
  | boolean => 1
  | byte => 2
  | short => 3
  | integer => 4
  | long => 5
  | float => 6
  | double => 7
  | string => 8
  | timestamp => 9
  | aggregationState => 10

def name : DataType → String
  | undefined => "undefined"
  | boolean => "boolean"
  | byte => "byte"
  | short => "short"
  | integer => "integer"
  | long => "long"
  | float => "float"
  | double => "double"
  | string => "string"
  | timestamp => "timestamp"
  | aggregationState => "aggregation_state"

instance : ToString DataType := ⟨name⟩

def ofId? (n : Nat) : Option DataType := all[n]?

def isIntegral : DataType → Bool
  | byte => true
  | short => true
  | integer => true
  | long => true
  | _ => false

def isFloating : DataType → Bool
  | float => true
  | double => true
  | _ => false

def isNumeric (t : DataType) : Bool := t.isIntegral || t.isFloating

def isNumericOrTimestamp (t : DataType) : Bool := t.isNumeric || t == timestamp

def isComparable (t : DataType) : Bool := t != aggregationState

/-- Whether values of the two types can be ordered against each other. The undefined type goes
with every other, as it has no values but null. -/
def comparableWith (a b : DataType) : Bool :=
  a == undefined || b == undefined ||
    (a.isComparable && b.isComparable && (a == b || (a.isNumeric && b.isNumeric)))

def write (t : DataType) : List UInt8 := [UInt8.ofNat t.id]

def read : Wire.Reader DataType := do
  let id ← Wire.Reader.byte
  match ofId? id.toNat with
  | some t => return t
  | none => Wire.Reader.fail s!"unknown data type id {id}"

theorem ofId?_id (t : DataType) : ofId? t.id = some t := by cases t <;> rfl

end DataType

end ShardQuery
