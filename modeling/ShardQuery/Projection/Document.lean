import ShardQuery.Projection.Basic
import ShardQuery.Symbol.Document
/-!
# Projections in documents

The level of a projection, and whatever else has a usual value, may be left out.
-/

namespace ShardQuery

open Json

namespace Granularity

def ofDocument? (isNested : Bool) : Json → Option Granularity :=
  choice? (all.map fun g => (g.name, g)) isNested

def toDocument (granularity : Granularity) : Json := .text granularity.name

end Granularity

def Symbol.listOfDocument? : Json → Option (List Symbol) := list? (Symbol.ofDocument? true)

namespace AggregateCall

def stepOfDocument? : Json → Option AggregateStep :=
  choice? (AggregateStep.all.map fun step => (step.name, step)) true

def ofDocument? (json : Json) : Option AggregateCall := do
  let fields ← fields? ["info", "inputs", "from_step", "to_step"] false json
  let info ← fields.required "info" (FunctionInfo.ofDocument? true)
  let inputs ← fields.required "inputs" Symbol.listOfDocument?
  let fromStep ← fields.required "from_step" stepOfDocument?
  return ⟨info, inputs, fromStep, ← fields.required "to_step" stepOfDocument?⟩

def toDocument (call : AggregateCall) : Json :=
  .object [("info", call.info.toDocument), ("inputs", .array (Symbol.toDocuments call.inputs)),
    ("from_step", .text call.fromStep.name), ("to_step", .text call.toStep.name)]

end AggregateCall

namespace SortKey

def ofDocument? (json : Json) : Option SortKey := do
  let fields ← fields? ["symbol", "descending", "nulls_first"] false json
  let symbol ← fields.required "symbol" (Symbol.ofDocument? true)
  let descending ← fields.optional "descending" boolean? false
  return ⟨symbol, descending, ← fields.optional "nulls_first" (option? boolean?) none⟩

def toDocument (key : SortKey) : Json :=
  .object [("symbol", key.symbol.toDocument), ("descending", .boolean key.descending),
    ("nulls_first", .ofOption .boolean key.nullsFirst?)]

end SortKey

namespace Projection

def documentNames : List (String × ProjectionKind) :=
  [("filter", .filter), ("aggregation", .aggregation), ("group", .group), ("topn", .topN),
    ("order", .order), ("write", .write)]

def ofFields? (kind : ProjectionKind) (json : Json) : Option Projection := do
  let calls? := list? AggregateCall.ofDocument?
  let keys? := list? SortKey.ofDocument?
  let granularity? := Granularity.ofDocument? true
  match kind with
  | .filter =>
    let fields ← fields? ["query", "outputs", "granularity"] false json
    let query ← fields.required "query" (Symbol.ofDocument? true)
    let outputs ← fields.required "outputs" Symbol.listOfDocument?
    return filter query outputs
      (← fields.optional "granularity" granularity? .cluster)
  | .aggregation =>
    let fields ← fields? ["aggregations", "granularity"] false json
    let calls ← fields.required "aggregations" calls?
    return aggregation calls (← fields.required "granularity" granularity?)
  | .group =>
    let fields ← fields? ["keys", "aggregations", "granularity"] false json
    let keys ← fields.required "keys" Symbol.listOfDocument?
    let calls ← fields.required "aggregations" calls?
    return group keys calls (← fields.required "granularity" granularity?)
  | .topN =>
    let fields ← fields? ["outputs", "order_by", "limit", "offset", "granularity"] false json
    let outputs ← fields.required "outputs" Symbol.listOfDocument?
    let keys ← fields.optional "order_by" keys? []
    let limit ← fields.optional "limit" (option? uint64?) none
    let offset ← fields.optional "offset" uint64? 0
    return topN outputs keys limit offset
      (← fields.optional "granularity" granularity? .cluster)
  | .order =>
    let fields ← fields? ["outputs", "order_by", "granularity"] false json
    let outputs ← fields.required "outputs" Symbol.listOfDocument?
    let keys ← fields.required "order_by" keys?
    return order outputs keys
      (← fields.optional "granularity" granularity? .cluster)
  | .write =>
    let fields ← fields? ["inputs", "granularity"] false json
    let inputs ← fields.required "inputs" Symbol.listOfDocument?
    return write inputs (← fields.optional "granularity" granularity? .shard)

def ofDocument? (json : Json) : Option Projection := do
  let (name, json) ← tagged? "type" (documentNames.map (·.1)) false json
  ofFields? (← documentNames.lookup name) json

def symbolsToDocument (symbols : List Symbol) : Json := .array (Symbol.toDocuments symbols)

def toDocument (projection : Projection) : Json :=
  let calls (calls : List AggregateCall) := Json.array (calls.map AggregateCall.toDocument)
  let keys (keys : List SortKey) := Json.array (keys.map SortKey.toDocument)
  let fields := match projection with
    | filter query outputs _ =>
      [("type", .text "filter"), ("query", query.toDocument),
        ("outputs", symbolsToDocument outputs)]
    | aggregation list _ => [("type", .text "aggregation"), ("aggregations", calls list)]
    | group symbols list _ =>
      [("type", .text "group"), ("keys", symbolsToDocument symbols),
        ("aggregations", calls list)]
    | topN outputs list limit offset _ =>
      [("type", .text "topn"), ("outputs", symbolsToDocument outputs), ("order_by", keys list),
        ("limit", .ofOption (fun n => .ofNat n.toNat) limit), ("offset", .ofNat offset.toNat)]
    | order outputs list _ =>
      [("type", .text "order"), ("outputs", symbolsToDocument outputs), ("order_by", keys list)]
    | write inputs _ => [("type", .text "write"), ("inputs", symbolsToDocument inputs)]
  .object (fields ++ [("granularity", projection.granularity.toDocument)])

end Projection

end ShardQuery
