import ShardQuery.Json.Decode
import ShardQuery.Value.Basic
/-!
# Values in documents

Plans hold values as alternatives named for their types, always inside symbols.
Every field is written; a double that documents cannot hold becomes null.
-/

namespace ShardQuery

open Json

namespace DataType

def ofDocument? (isNested : Bool) : Json → Option DataType :=
  choice? (all.map fun t => (t.name, t)) isNested

def toDocument (t : DataType) : Json := .text t.name

end DataType

/-- A double, or null if it is not finite. -/
def Double.toDocument (x : Double) : Json := if x.isFinite then .real x else .null

/-- A state, of which a minimum or maximum holds a value that `value?` decodes. -/
def PartialState.ofDocument? (value? : Json → Option Value) (json : Json) :
    Option PartialState := do
  let (name, payload) ← variant? json
  let payload ← payload
  match name with
  | "count" =>
    let fields ← fields? ["count"] false payload
    return .count (← fields.required "count" uint64?)
  | "sum" =>
    let (name, payload) ← variant? payload
    let payload ← payload
    match name with
    | "long" =>
      return .sumLong (← option? int64? payload)
    | "double" => return .sumDouble (← option? double? payload)
    | _ => none
  | "average" =>
    let fields ← fields? ["count", "sum"] false payload
    return .average (← fields.required "count" uint64?) (← fields.required "sum" double?)
  | "extreme" =>
    let fields ← fields? ["is_max", "value"] false payload
    return .extreme (← fields.required "is_max" boolean?) (← fields.required "value" value?)
  | "variance" =>
    let fields ← fields? ["count", "mean", "m2"] false payload
    let count ← fields.required "count" uint64?
    let mean ← fields.required "mean" double?
    return .variance ⟨count, mean, ← fields.required "m2" double?⟩
  | _ => none

namespace Value

def ofDocumentWithin? : (levels : Nat) → Json → Option Value
  | 0, _ => none
  | levels + 1, json => do
    match ← variant? json with
    | ("null", payload?) => if payload?.all (isUnit true) then some .null else none
    | (_, none) => none
    | (name, some payload) =>
      match name with
      | "boolean" => payload.boolean?.map boolean
      | "byte" => payload.int8?.map byte
      | "short" => payload.int16?.map short
      | "integer" => payload.int32?.map integer
      | "long" => payload.int64?.map long
      | "float" => payload.single?.map float
      | "double" => payload.double?.map double
      | "string" => payload.text?.map string
      | "timestamp" => payload.int64?.map timestamp
      | "state" => (PartialState.ofDocument? (ofDocumentWithin? levels) payload).map state
      | _ => none

def ofDocument? (json : Json) : Option Value := ofDocumentWithin? (json.depth + 1) json

end Value

mutual
def Value.toDocument : Value → Json
  | .null => .text "null"
  | .boolean value => .object [("boolean", .boolean value)]
  | .byte value => .object [("byte", .integer value.toInt)]
  | .short value => .object [("short", .integer value.toInt)]
  | .integer value => .object [("integer", .integer value.toInt)]
  | .long value => .object [("long", .integer value.toInt)]
  | .float value => .object [("float", value.toDouble.toDocument)]
  | .double value => .object [("double", value.toDocument)]
  | .string value => .object [("string", .text value)]
  | .timestamp millis => .object [("timestamp", .integer millis.toInt)]
  | .state state => .object [("state", state.toDocument)]

def PartialState.toDocument : PartialState → Json
  | .count count => .object [("count", .object [("count", .ofNat count.toNat)])]
  | .sumLong sum =>
    .object [("sum", .object [("long", .ofOption (fun n => .integer n.toInt) sum)])]
  | .sumDouble sum =>
    .object [("sum", .object [("double", .ofOption Double.toDocument sum)])]
  | .average count sum =>
    .object [("average", .object [("count", .ofNat count.toNat), ("sum", sum.toDocument)])]
  | .extreme isMax value =>
    .object [("extreme", .object [("is_max", .boolean isMax), ("value", value.toDocument)])]
  | .variance m =>
    .object [("variance", .object [("count", .ofNat m.count.toNat),
      ("mean", m.mean.toDocument), ("m2", m.deviation.toDocument)])]
end

end ShardQuery
