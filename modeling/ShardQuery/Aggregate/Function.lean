import ShardQuery.Function.Scalar
/-!
# Aggregate functions

An aggregate starts from an empty state, folds in rows one at a time, combines
states of disjoint sets of rows, and turns a state into its result. Nulls are
passed over. States do not say for which types they were made, so every step
checks that it got a state of its own kind. A count that leaves its word is not an
error: it halts the task.
-/

namespace ShardQuery

inductive Summary where
  | count
  | sum
  | average
  | extreme (isMax : Bool)
  | variance
  /-- The square root of the variance. -/
  | spread
deriving DecidableEq

namespace Summary

def builtin : List (String × Summary) :=
  [("count", count), ("sum", sum), ("avg", average), ("min", extreme false),
    ("max", extreme true), ("variance", variance), ("stddev", spread)]

def name : Summary → String
  | count => "count"
  | sum => "sum"
  | average => "avg"
  | extreme isMax => if isMax then "max" else "min"
  | variance => "variance"
  | spread => "stddev"

def stateKind : Summary → String
  | spread => "variance"
  | summary => summary.name

/-- What an aggregate other than `count` returns for an argument of the type, if it takes one. -/
def returnType? (summary : Summary) (t : DataType) : Option DataType :=
  match summary with
  | count => some .long
  | sum =>
    if t.isIntegral then some .long else if t.isFloating then some .double else none
  | average | variance | spread => if t.isNumericOrTimestamp then some .double else none
  | extreme _ => if t.isComparable && t != .undefined then some t else none

end Summary

/-- An aggregate with the signature that it was resolved for. -/
structure AggregateFunction where
  info : FunctionInfo
  summary : Summary
deriving DecidableEq

namespace AggregateFunction

/-- The aggregate for these argument types. `count` takes at most one argument, all others take
exactly one. -/
def resolve (summary : Summary) (types : List DataType) :
    Except EngineError AggregateFunction :=
  let signature : Signature := ⟨summary.name, types⟩
  let resolved (returnType : DataType) : AggregateFunction :=
    ⟨⟨signature, returnType, .aggregate⟩, summary⟩
  match summary, types with
  | .count, types =>
    if 1 < types.length then
      .error (.typeResolution s!"count takes at most one argument, got {types.length}")
    else if types.contains .aggregationState then
      .error (.typeResolution "count cannot be applied to an aggregation state")
    else .ok (resolved .long)
  | summary, [t] =>
    match summary.returnType? t with
    | some returnType => .ok (resolved returnType)
    | none => .error (.typeResolution s!"{summary.name} is not defined for {signature}")
  | summary, _ => .error (.typeResolution s!"{summary.name} is not defined for {signature}")

def initial (f : AggregateFunction) : PartialState :=
  match f.summary with
  | .count => .count 0
  | .sum => if f.info.returnType = .long then .sumLong none else .sumDouble none
  | .average => .average 0 .zero
  | .extreme isMax => .extreme isMax .null
  | .variance | .spread => .variance .empty

def unexpected (f : AggregateFunction) (state : PartialState) : EngineError :=
  .merge s!"expected a {f.summary.stateKind} state, got a {state.kind} state"

def mixedExtremes : EngineError := .merge "cannot combine min and max states"

def mixedSums : EngineError := .merge "cannot merge long and double sums"

def sumOverflow : EngineError := .execution "long overflow in sum"

def addLongs (a b : Int64) : Except EngineError Int64 :=
  match toLong? (a.toInt + b.toInt) with
  | some c => .ok c
  | none => .error sumOverflow

/-- Of the current extreme and a candidate the one to keep; a null candidate changes nothing. -/
def keepExtreme (isMax : Bool) (current candidate : Value) : Except EngineError Value :=
  if candidate.isNull then .ok current
  else if current.isNull then .ok candidate
  else match candidate.compare? current with
    | some order =>
      .ok (if order == (if isMax then .gt else .lt) then candidate else current)
    | none =>
      let name := (Summary.extreme isMax).name
      .error (.execution
        s!"{name} cannot compare {candidate.dataType} with {current.dataType}")

/-- The sum of two counts, if there is room for it. -/
def addCounts (m n : UInt64) : Except Halt UInt64 :=
  if m.toNat + n.toNat < UInt64.size then .ok (m + n) else .error .overflow

theorem addCounts_of_lt {m n : UInt64} (h : m.toNat + n.toNat < UInt64.size) :
    addCounts m n = .ok (m + n) := if_pos h

theorem addCounts_of_le {m n : UInt64} (h : UInt64.size ≤ m.toNat + n.toNat) :
    addCounts m n = .error .overflow := if_neg (Nat.not_lt_of_le h)

theorem addCounts_eq_ok {m n sum : UInt64} :
    addCounts m n = .ok sum ↔ sum.toNat = m.toNat + n.toNat := by
  by_cases h : m.toNat + n.toNat < UInt64.size
  · rw [addCounts_of_lt h, Except.ok.injEq, ← UInt64.toNat_inj, UInt64.toNat_add,
      Nat.mod_eq_of_lt h, eq_comm]
  · rw [addCounts_of_le (Nat.le_of_not_lt h)]
    exact iff_of_false nofun fun hsum => h (hsum ▸ sum.toNat_lt)

/-- Folds the arguments of one row into a state. -/
def iterate (f : AggregateFunction) (state : PartialState) (arguments : List Value) :
    Except Halt PartialState :=
  let value := arguments.headD .null
  match f.summary, state with
  | .count, .count n =>
    if f.info.argumentTypes.isEmpty || !value.isNull then (addCounts n 1).map .count
    else .ok (.count n)
  | .sum, state => Halt.ofExcept <|
    if value.isNull then .ok state
    else match state with
      | .sumLong sum =>
        match value.long? with
        | some n => (addLongs (sum.getD 0) n).map (.sumLong ∘ some)
        | none => .error (.execution s!"sum expected an integral value, got {value}")
      | .sumDouble sum =>
        match value.double? with
        | some x => .ok (.sumDouble (some (sum.getD .zero + x)))
        | none => .error (.execution s!"sum expected a numeric value, got {value}")
      | state => .error (f.unexpected state)
  | .average, .average n sum =>
    match value.double? with
    | some x => (addCounts n 1).map fun n => .average n (sum + x)
    | none => .ok (.average n sum)
  | .extreme isMax, .extreme other current => Halt.ofExcept <|
    if arguments.isEmpty then .ok state
    else if other ≠ isMax then .error mixedExtremes
    else (keepExtreme isMax current value).map (.extreme isMax)
  | .variance, .variance m | .spread, .variance m =>
    match value.double? with
    | some x => (addCounts m.count 1).map fun _ => .variance (m.add x)
    | none => .ok (.variance m)
  | _, state => .error (f.unexpected state)

def accepts (f : AggregateFunction) (state : PartialState) : Bool :=
  match f.summary, state with
  | .count, .count _ | .sum, .sumLong _ | .sum, .sumDouble _ | .average, .average ..
  | .extreme _, .extreme .. | .variance, .variance _ | .spread, .variance _ => true
  | _, _ => false

def combineSums {α : Type} (add : α → α → Except EngineError α) :
    Option α → Option α → Except EngineError (Option α)
  | some a, some b => (add a b).map some
  | a, none => .ok a
  | none, b => .ok b

def merge (f : AggregateFunction) (a b : PartialState) : Except Halt PartialState :=
  match f.summary, a, b with
  | .count, .count m, .count n => (addCounts m n).map .count
  | .sum, .sumLong x, .sumLong y => Halt.ofExcept ((combineSums addLongs x y).map .sumLong)
  | .sum, .sumDouble x, .sumDouble y =>
    Halt.ofExcept ((combineSums (fun x y => .ok (x + y)) x y).map .sumDouble)
  | .sum, .sumLong _, .sumDouble _ | .sum, .sumDouble _, .sumLong _ => .error mixedSums
  | .average, .average m x, .average n y => (addCounts m n).map fun n => .average n (x + y)
  | .extreme isMax, .extreme kindA x, .extreme kindB y => Halt.ofExcept <|
    if kindA ≠ kindB ∨ kindA ≠ isMax then .error mixedExtremes
    else (keepExtreme isMax x y).map (.extreme isMax)
  | .variance, .variance x, .variance y | .spread, .variance x, .variance y =>
    (addCounts x.count y.count).map fun _ => .variance (x.merge y)
  | _, a, b => .error (f.unexpected (if f.accepts a then b else a))

def finalize (f : AggregateFunction) (state : PartialState) : Except EngineError Value :=
  match f.summary, state with
  | .count, .count n =>
    match toLong? n.toNat with
    | some n => .ok (.long n)
    | none => .error (.execution "count exceeds the long range")
  | .sum, .sumLong sum => .ok (sum.elim .null .long)
  | .sum, .sumDouble sum => .ok (sum.elim .null .double)
  | .average, .average n sum =>
    .ok (if n = 0 then .null else .double (sum / Double.ofCount n))
  | .extreme _, .extreme _ value => .ok value
  | .variance, .variance m => .ok (m.variance.elim .null .double)
  | .spread, .variance m => .ok (m.variance.elim .null (.double ∘ Double.sqrt))
  | _, state => .error (f.unexpected state)

end AggregateFunction

end ShardQuery
