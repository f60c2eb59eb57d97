import ShardQuery.Aggregate.Moments
import ShardQuery.DataType
import ShardQuery.Timestamp
import ShardQuery.Number.Layout
/-!
# Values

The values of columns, and the partial states of aggregates, which are values
too. A minimum or maximum holds a value, so the two types need each other.
-/

namespace ShardQuery

mutual
inductive Value where
  | null
  | boolean (value : Bool)
  | byte (value : Int8)
  | short (value : Int16)
  | integer (value : Int32)
  | long (value : Int64)
  | float (value : Single)
  | double (value : Double)
  | string (value : String)
  | timestamp (millis : Int64)
  | state (state : PartialState)

/-- What an aggregate knows after some of its rows. -/
inductive PartialState where
  | count (count : UInt64)
  /-- A sum of integers, absent before the first one. -/
  | sumLong (sum : Option Int64)
  | sumDouble (sum : Option Double)
  | average (count : UInt64) (sum : Double)
  /-- The least or the greatest value so far, null before the first one. -/
  | extreme (isMax : Bool) (value : Value)
  | variance (moments : Moments Double)
end

deriving instance DecidableEq for Value, PartialState

instance : Inhabited Value := ⟨.null⟩

instance : Inhabited PartialState := ⟨.count 0⟩

abbrev Row := List Value

def PartialState.kind : PartialState → String
  | count _ => "count"
  | sumLong _ => "sum"
  | sumDouble _ => "sum"
  | average .. => "avg"
  | extreme isMax _ => if isMax then "max" else "min"
  | variance _ => "variance"

namespace Value

def dataType : Value → DataType
  | null => .undefined
  | boolean _ => .boolean
  | byte _ => .byte
  | short _ => .short
  | integer _ => .integer
  | long _ => .long
  | float _ => .float
  | double _ => .double
  | string _ => .string
  | timestamp _ => .timestamp
  | state _ => .aggregationState

def isNull : Value → Bool
  | null => true
  | _ => false

def fits (value : Value) (t : DataType) : Bool := value.isNull || value.dataType == t

def boolean? : Value → Option Bool
  | boolean value => some value
  | _ => none

def text? : Value → Option String
  | string value => some value
  | _ => none

/-- Integers of any width, and timestamps. -/
def long? : Value → Option Int64
  | byte value => some value.toInt64
  | short value => some value.toInt64
  | integer value => some value.toInt64
  | long value => some value
  | timestamp millis => some millis
  | _ => none

/-- Numbers and timestamps as doubles. -/
def double? : Value → Option Double
  | float value => some value.toDouble
  | double value => some value
  | value => value.long?.map .ofInt64

def display : Value → String
  | null => "NULL"
  | boolean value => if value then "true" else "false"
  | byte value => toString value.toInt
  | short value => toString value.toInt
  | integer value => toString value.toInt
  | long value => toString value.toInt
  | float value => Layout.plain.single value
  | double value => Layout.plain.double value
  | string value => "'" ++ value ++ "'"
  | timestamp millis => Timestamp.render millis
  | state held => "<" ++ held.kind ++ " state>"

instance : ToString Value := ⟨display⟩

end Value

end ShardQuery
