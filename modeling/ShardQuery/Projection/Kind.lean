/-!
# Kinds of projections and levels of execution
-/

namespace ShardQuery

/-- Where in the cluster a stage runs, from the finest level to the coarsest. -/
inductive Granularity where
  | doc
  | shard
  | node
  | cluster
deriving DecidableEq, Inhabited, Repr

namespace Granularity

def id : Granularity → Nat
  | doc => 0
  | shard => 1
  | node => 2
  | cluster => 3

def all : List Granularity := [doc, shard, node, cluster]

def name : Granularity → String
  | doc => "DOC"
  | shard => "SHARD"
  | node => "NODE"
  | cluster => "CLUSTER"

instance : ToString Granularity := ⟨name⟩

end Granularity

inductive ProjectionKind where
  | filter
  | aggregation
  | group
  | topN
  | order
  | write
deriving DecidableEq, Inhabited, Repr

namespace ProjectionKind

def id : ProjectionKind → Nat
  | filter => 0
  | aggregation => 1
  | group => 2
  | topN => 3
  | order => 4
  | write => 5

def all : List ProjectionKind := [filter, aggregation, group, topN, order, write]

def name : ProjectionKind → String
  | filter => "FILTER"
  | aggregation => "AGGREGATION"
  | group => "GROUP"
  | topN => "TOPN"
  | order => "ORDER"
  | write => "WRITE"

instance : ToString ProjectionKind := ⟨name⟩

end ProjectionKind

end ShardQuery
