import ShardQuery.Projection.Kind
import ShardQuery.Symbol.Basic
/-!
# Projections

A projection describes one stage of a chain: what it does to rows, which columns
come out of it, and the level of the cluster that it has to run at. Aggregates
may be split over levels: the first step makes states of rows, later steps combine
states, the last one makes results.
-/

namespace ShardQuery

inductive AggregateStep where
  | rows
  | states
  | results
deriving DecidableEq, Inhabited

namespace AggregateStep

def id : AggregateStep → Nat
  | rows => 0
  | states => 1
  | results => 2

def all : List AggregateStep := [rows, states, results]

def name : AggregateStep → String
  | rows => "iter"
  | states => "partial"
  | results => "final"

end AggregateStep

structure AggregateCall where
  info : FunctionInfo
  inputs : List Symbol
  fromStep : AggregateStep
  toStep : AggregateStep
deriving Inhabited

namespace AggregateCall

def valueType (call : AggregateCall) : DataType :=
  if call.toStep = .states then .aggregationState else call.info.returnType

/-- Checks that the call is one of an aggregate, that its steps go forward, and that there is one
column of states to combine if it starts from states. -/
def validate (call : AggregateCall) : Except EngineError Unit :=
  let name := call.info.name
  if call.info.kind ≠ .aggregate then
    .error (.invalidPlan s!"{call.info.signature} is not an aggregate function")
  else match call.fromStep, call.toStep with
    | .rows, .states | .rows, .results => .ok ()
    | .states, .states | .states, .results =>
      if call.inputs.length = 1 then .ok ()
      else
        .error (.invalidPlan s!"{name} merging partial states needs exactly one state input")
    | start, goal =>
      .error (.invalidPlan s!"{name} cannot go from {start.name} to {goal.name}")

def display (call : AggregateCall) : String :=
  s!"{call.info.name}({Symbol.displayAll call.inputs}) " ++
    s!"{call.fromStep.name}->{call.toStep.name}"

def same (a b : AggregateCall) : Bool :=
  a.info == b.info && Symbol.sameAll a.inputs b.inputs && a.fromStep == b.fromStep &&
    a.toStep == b.toStep

end AggregateCall

structure SortKey where
  symbol : Symbol
  descending : Bool
  /-- Where nulls go; if absent, they go first in a descending order and last otherwise. -/
  nullsFirst? : Option Bool
deriving Inhabited

namespace SortKey

def nullsFirst (key : SortKey) : Bool := key.nullsFirst?.getD key.descending

def display (key : SortKey) : String :=
  let direction := if key.descending then "DESC" else "ASC"
  let nulls := if key.nullsFirst then "NULLS FIRST" else "NULLS LAST"
  s!"{key.symbol.display} {direction} {nulls}"

def same (a b : SortKey) : Bool :=
  a.symbol.same b.symbol && a.descending == b.descending && a.nullsFirst? == b.nullsFirst?

end SortKey

inductive Projection where
  /-- The rows for which `query` is true, as `outputs`. -/
  | filter (query : Symbol) (outputs : List Symbol) (granularity : Granularity)
  /-- One row with the value of each call for all rows. -/
  | aggregation (calls : List AggregateCall) (granularity : Granularity)
  /-- For each group of rows with the same keys a row of the keys and the values of the calls. -/
  | group (keys : List Symbol) (calls : List AggregateCall) (granularity : Granularity)
  /-- At most `limit` rows in the order of the keys, after the first `offset`, as `outputs`. -/
  | topN (outputs : List Symbol) (order : List SortKey) (limit : Option UInt64) (offset : UInt64)
      (granularity : Granularity)
  /-- All rows in the order of the keys, as `outputs`. -/
  | order (outputs : List Symbol) (order : List SortKey) (granularity : Granularity)
  /-- Hands rows of `inputs` to the sink and returns their number. -/
  | write (inputs : List Symbol) (granularity : Granularity)
deriving Inhabited

namespace Projection

def kind : Projection → ProjectionKind
  | filter .. => .filter
  | aggregation .. => .aggregation
  | group .. => .group
  | topN .. => .topN
  | order .. => .order
  | write .. => .write

def granularity : Projection → Granularity
  | filter _ _ granularity => granularity
  | aggregation _ granularity => granularity
  | group _ _ granularity => granularity
  | topN _ _ _ _ granularity => granularity
  | order _ _ granularity => granularity
  | write _ granularity => granularity

def withGranularity (granularity : Granularity) : Projection → Projection
  | filter query outputs _ => filter query outputs granularity
  | aggregation calls _ => aggregation calls granularity
  | group keys calls _ => group keys calls granularity
  | topN outputs keys limit offset _ => topN outputs keys limit offset granularity
  | order outputs keys _ => order outputs keys granularity
  | write inputs _ => write inputs granularity

/-- References to columns of these types, from the first column on. -/
def columns (types : List DataType) : List Symbol :=
  types.zipIdx.map fun (type, index) => .reference (UInt32.ofNat index) type

def outputs : Projection → List Symbol
  | filter _ outputs _ => outputs
  | aggregation calls _ => columns (calls.map AggregateCall.valueType)
  | group keys calls _ =>
    columns (keys.map Symbol.valueType ++ calls.map AggregateCall.valueType)
  | topN outputs _ _ _ _ => outputs
  | order outputs _ _ => outputs
  | write .. => columns [.long]

def outputTypes (projection : Projection) : List DataType :=
  projection.outputs.map Symbol.valueType

def displayCalls (calls : List AggregateCall) : String :=
  ", ".intercalate (calls.map AggregateCall.display)

def displayKeys (keys : List SortKey) : String := ", ".intercalate (keys.map SortKey.display)

def displayBody : Projection → String
  | filter query outputs _ => s!"FILTER {query.display} -> [{Symbol.displayAll outputs}]"
  | aggregation calls _ => s!"AGGREGATION [{displayCalls calls}]"
  | group keys calls _ => s!"GROUP BY [{Symbol.displayAll keys}] [{displayCalls calls}]"
  | topN outputs keys limit offset _ =>
    s!"TOPN [{Symbol.displayAll outputs}]" ++
      (if keys.isEmpty then "" else s!" ORDER BY {displayKeys keys}") ++
      (limit.elim "" fun limit => s!" LIMIT {limit}") ++
      (if offset = 0 then "" else s!" OFFSET {offset}")
  | order outputs keys _ => s!"ORDER [{Symbol.displayAll outputs}] BY {displayKeys keys}"
  | write inputs _ => s!"WRITE [{Symbol.displayAll inputs}]"

def display (projection : Projection) : String :=
  s!"{projection.displayBody} @{projection.granularity}"

instance : ToString Projection := ⟨display⟩

def sameLists {α : Type} (same : α → α → Bool) (a b : List α) : Bool :=
  a.length == b.length && (a.zip b).all fun (x, y) => same x y

/-- Sameness of projections, with literals compared as `Symbol.same` does. -/
def same : Projection → Projection → Bool
  | filter a outputs g, filter b others h =>
    a.same b && Symbol.sameAll outputs others && g == h
  | aggregation a g, aggregation b h => sameLists AggregateCall.same a b && g == h
  | group keys a g, group others b h =>
    Symbol.sameAll keys others && sameLists AggregateCall.same a b && g == h
  | topN outputs a limit offset g, topN others b otherLimit otherOffset h =>
    Symbol.sameAll outputs others && sameLists SortKey.same a b && limit == otherLimit &&
      offset == otherOffset && g == h
  | order outputs a g, order others b h =>
    Symbol.sameAll outputs others && sameLists SortKey.same a b && g == h
  | write a g, write b h => Symbol.sameAll a b && g == h
  | _, _ => false

/-- Checks that no projection of a chain requires a finer level than the one before it. -/
def validateChain : List Projection → Except EngineError Unit
  | before :: after :: rest =>
    if after.granularity.id < before.granularity.id then
      let first := s!"{before.kind} at {before.granularity}"
      .error (.invalidPlan s!"{after.kind} at {after.granularity} cannot follow {first}")
    else validateChain (after :: rest)
  | _ => .ok ()

def chainTypes (input : List DataType) (projections : List Projection) : List DataType :=
  match projections.getLast? with
  | some last => last.outputTypes
  | none => input

end Projection

end ShardQuery
