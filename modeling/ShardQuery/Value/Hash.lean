import ShardQuery.Value.Basic
/-!
# What values are hashed by

The bytes that a value feeds to a hasher, its type before its contents. An index of
rows compares a row only with those that feed the same bytes.
-/

namespace ShardQuery

open Wire

namespace Value

/-- What the value feeds after its type; nothing for a state. -/
def contents : Value → List UInt8
  | null | state _ => []
  | boolean value => Wire.bool value
  | byte value => [value.toUInt8]
  | short value => littleEndian 2 value.toUInt16.toNat
  | integer value => littleEndian 4 value.toUInt32.toNat
  | long value | timestamp value => littleEndian 8 value.toUInt64.toNat
  | float value => Wire.single value
  | double value => Wire.double value
  | string value => Utf8.encode value ++ [0xff]

def hashed (value : Value) : List UInt8 := value.dataType.write ++ value.contents

end Value

/-- The length of the row, then its values. -/
def Row.hashed (row : Row) : List UInt8 := littleEndian 8 row.length ++ row.flatMap Value.hashed

end ShardQuery
