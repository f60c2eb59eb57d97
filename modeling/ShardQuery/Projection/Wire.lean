import ShardQuery.Projection.Basic
import ShardQuery.Symbol.Wire
/-!
# Projections on the wire

The id of the kind, then the parts in order. A limit is written as its successor,
so that zero means no limit; the greatest limit has no successor and is written as
itself.
-/

namespace ShardQuery

open Wire

namespace Granularity

def write (granularity : Granularity) : List UInt8 := [UInt8.ofNat granularity.id]

def read : Reader Granularity := do
  let id ← Reader.byte
  match all[id.toNat]? with
  | some granularity => return granularity
  | none => Reader.fail s!"unknown row granularity {id}"

end Granularity

namespace AggregateStep

def write (step : AggregateStep) : List UInt8 := [UInt8.ofNat step.id]

def read : Reader AggregateStep := do
  let id ← Reader.byte
  match all[id.toNat]? with
  | some step => return step
  | none => Reader.fail s!"unknown aggregate step {id}"

end AggregateStep

namespace AggregateCall

def write (call : AggregateCall) : Output :=
  .of call.info.write ++ Symbol.writeAll call.inputs ++
    .of (call.fromStep.write ++ call.toStep.write)

def read : Reader AggregateCall := do
  let info ← FunctionInfo.read
  let inputs ← Symbol.readAll
  let fromStep ← AggregateStep.read
  return ⟨info, inputs, fromStep, ← AggregateStep.read⟩

end AggregateCall

namespace SortKey

def writeNulls : Option Bool → List UInt8
  | none => [0]
  | some true => [1]
  | some false => [2]

def readNulls : Reader (Option Bool) := do
  let id ← Reader.byte
  match id.toNat with
  | 0 => return none
  | 1 => return some true
  | 2 => return some false
  | _ => Reader.fail s!"unknown null ordering {id}"

def write (key : SortKey) : Output :=
  key.symbol.write ++ .of (Wire.bool key.descending ++ writeNulls key.nullsFirst?)

def read : Reader SortKey := do
  let symbol ← Symbol.read
  let descending ← Reader.bool
  return ⟨symbol, descending, ← readNulls⟩

end SortKey

namespace Projection

def writeLimit : Option UInt64 → List UInt8
  | none => vlong 0
  | some limit => varint (min (limit.toNat + 1) 0xffffffffffffffff)

def readLimit : Reader (Option UInt64) := do
  let n ← Reader.vlong
  return if n = 0 then none else some (n - 1)

def writeBody : Projection → Output
  | filter query outputs granularity =>
    query.write ++ Symbol.writeAll outputs ++ .of granularity.write
  | aggregation calls granularity => .list AggregateCall.write calls ++ .of granularity.write
  | group keys calls granularity =>
    Symbol.writeAll keys ++ .list AggregateCall.write calls ++ .of granularity.write
  | topN outputs keys limit offset granularity =>
    Symbol.writeAll outputs ++ .list SortKey.write keys ++
      .of (writeLimit limit ++ vlong offset ++ granularity.write)
  | order outputs keys granularity =>
    Symbol.writeAll outputs ++ .list SortKey.write keys ++ .of granularity.write
  | write inputs granularity => Symbol.writeAll inputs ++ .of granularity.write

def encode (projection : Projection) : Output :=
  .of [UInt8.ofNat projection.kind.id] ++ projection.writeBody

def encodeAll (projections : List Projection) : Output := .list encode projections

def readBody : ProjectionKind → Reader Projection
  | .filter => do
    let query ← Symbol.read
    let outputs ← Symbol.readAll
    return filter query outputs (← Granularity.read)
  | .aggregation => do
    let calls ← Reader.list AggregateCall.read
    return aggregation calls (← Granularity.read)
  | .group => do
    let keys ← Symbol.readAll
    let calls ← Reader.list AggregateCall.read
    return group keys calls (← Granularity.read)
  | .topN => do
    let outputs ← Symbol.readAll
    let keys ← Reader.list SortKey.read
    let limit ← readLimit
    let offset ← Reader.vlong
    return topN outputs keys limit offset (← Granularity.read)
  | .order => do
    let outputs ← Symbol.readAll
    let keys ← Reader.list SortKey.read
    return order outputs keys (← Granularity.read)
  | .write => do
    let inputs ← Symbol.readAll
    return write inputs (← Granularity.read)

def read : Reader Projection := do
  let id ← Reader.byte
  match ProjectionKind.all[id.toNat]? with
  | some kind => readBody kind
  | none => Reader.fail s!"unknown projection type {id}"

def readAll : Reader (List Projection) := Reader.list read

end Projection

end ShardQuery
