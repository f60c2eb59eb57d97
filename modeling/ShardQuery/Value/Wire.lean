import ShardQuery.Value.Basic
/-!
# Values on the wire

A column writes the bodies of its non-null values without a tag, as the type is
known. Where nulls are possible and no bitmap says so, a byte in front of the body
tells whether there is one. The value inside a minimum or maximum is never a state
itself when it is read.
-/

namespace ShardQuery

open Wire

def DataType.refuse (t : DataType) (value : Value) : Output :=
  .fail (.serialization s!"{t} streamer cannot write a {value.dataType} value")

mutual
def Value.writeBody (t : DataType) : Value → Output
  | .boolean value => if t = .boolean then .of (Wire.bool value) else t.refuse (.boolean value)
  | .byte value => if t = .byte then .of [value.toUInt8] else t.refuse (.byte value)
  | .short value => if t = .short then .of (zint value.toInt32) else t.refuse (.short value)
  | .integer value => if t = .integer then .of (zint value) else t.refuse (.integer value)
  | .long value => if t = .long then .of (zlong value) else t.refuse (.long value)
  | .float value => if t = .float then .of (single value) else t.refuse (.float value)
  | .double value => if t = .double then .of (double value) else t.refuse (.double value)
  | .string value => if t = .string then .of (text value) else t.refuse (.string value)
  | .timestamp millis => if t = .timestamp then .of (zlong millis) else t.refuse (.timestamp millis)
  | .state state => if t = .aggregationState then state.write else t.refuse (.state state)
  | .null => t.refuse .null

def PartialState.write : PartialState → Output
  | .count count => .of (0 :: vlong count)
  | .sumLong sum => .of ([1, 0] ++ Wire.bool sum.isSome ++ (sum.map zlong).getD [])
  | .sumDouble sum => .of ([1, 1] ++ Wire.bool sum.isSome ++ (sum.map double).getD [])
  | .average count sum => .of (2 :: vlong count ++ double sum)
  | .extreme isMax value =>
    .of (3 :: Wire.bool isMax ++ value.dataType.write ++ Wire.bool (!value.isNull)) ++
      (match value with
        | .null => .of []
        | value => value.writeBody value.dataType)
  | .variance m => .of (4 :: vlong m.count ++ double m.mean ++ double m.deviation)
end

/-- A byte that tells whether there is a value, and its body if there is. -/
def Value.write (t : DataType) (value : Value) : Output :=
  match value with
  | .null => .of (Wire.bool false)
  | value => .of (Wire.bool true) ++ value.writeBody t

def Value.readPlain : DataType → Reader Value
  | .boolean => do return .boolean (← Reader.bool)
  | .byte => do return .byte (← Reader.byte).toInt8
  | .short => do
    let n ← Reader.zint
    if -0x8000 ≤ n.toInt ∧ n.toInt < 0x8000 then return .short (Int16.ofInt n.toInt)
    else Reader.fail s!"short value {n} out of range"
  | .integer => do return .integer (← Reader.zint)
  | .long => do return .long (← Reader.zlong)
  | .float => do return .float (← Reader.single)
  | .double => do return .double (← Reader.double)
  | .string => do return .string (← Reader.text)
  | .timestamp => do return .timestamp (← Reader.zlong)
  | .undefined => Reader.fail "undefined column carries a non-null value"
  | .aggregationState => Reader.fail "min/max state cannot hold a nested state"

def Value.readWith (body : Reader Value) : Reader Value := do
  if ← Reader.bool then body else return .null

def PartialState.read : Reader PartialState := do
  let tag ← Reader.byte
  match tag.toNat with
  | 0 => return .count (← Reader.vlong)
  | 1 =>
    let isDouble ← Reader.bool
    let present ← Reader.bool
    match isDouble, present with
    | false, true => return .sumLong (some (← Reader.zlong))
    | false, false => return .sumLong none
    | true, true => return .sumDouble (some (← Reader.double))
    | true, false => return .sumDouble none
  | 2 =>
    let count ← Reader.vlong
    return .average count (← Reader.double)
  | 3 =>
    let isMax ← Reader.bool
    let t ← DataType.read
    if t = .aggregationState then Reader.fail "min/max state cannot hold a nested state"
    else return .extreme isMax (← Value.readWith (Value.readPlain t))
  | 4 =>
    let count ← Reader.vlong
    let mean ← Reader.double
    return .variance ⟨count, mean, ← Reader.double⟩
  | _ => Reader.fail s!"unknown aggregation state tag {tag}"

def Value.readBody (t : DataType) : Reader Value :=
  match t with
  | .aggregationState => do return .state (← PartialState.read)
  | t => Value.readPlain t

def Value.read (t : DataType) : Reader Value := Value.readWith (Value.readBody t)

end ShardQuery
