import ShardQuery.Value.Basic
/-!
# Comparing values

Two relations that must not be confused: the order of values in comparisons and
sorts, and the sameness by which rows are grouped.
-/

namespace ShardQuery

/-- The order of two non-null values. Integers are compared exactly, other pairs of numbers as
doubles. Nothing for null and for types without a common order. -/
def Value.compare? (a b : Value) : Option Ordering :=
  match a, b with
  | .boolean x, .boolean y => some (compare x.toNat y.toNat)
  | .string x, .string y => some (compareOfLessAndEq x y)
  | .timestamp x, .timestamp y => some (compare x.toInt y.toInt)
  | a, b =>
    if a.dataType.isIntegral && b.dataType.isIntegral then do
      return compare (← a.long?).toInt (← b.long?).toInt
    else if a.dataType.isNumeric && b.dataType.isNumeric then do
      return (← a.double?).order (← b.double?)
    else none

mutual
/-- Sameness of values: singles and doubles by their bits, states by `PartialState.same`. -/
def Value.same : Value → Value → Bool
  | .state a, .state b => a.same b
  | a, b => decide (a = b)

/-- Sameness of states: of the doubles that a state holds, a NaN is the same as nothing and the
two zeros are the same. -/
def PartialState.same : PartialState → PartialState → Bool
  | .sumDouble (some a), .sumDouble (some b) => a.numEq b
  | .average m a, .average n b => m == n && a.numEq b
  | .extreme m a, .extreme n b => m == n && a.same b
  | .variance a, .variance b =>
    a.count == b.count && a.mean.numEq b.mean && a.deviation.numEq b.deviation
  | a, b => decide (a = b)
end

def Row.same : Row → Row → Bool
  | [], [] => true
  | a :: rest, b :: others => a.same b && Row.same rest others
  | _, _ => false

end ShardQuery
