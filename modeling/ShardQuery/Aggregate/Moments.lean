import ShardQuery.Number.Double
/-!
# Mean and variance of a stream

The count, the mean and the sum of squared deviations from the mean are kept up
to date value by value. Two such summaries are combined without their values; as
the arithmetic may round, they are put into a fixed order first, so that both
ways of combining them give the same bits.

Nothing here looks whether a count leaves its word. Aggregates do so first, and only
add and merge where there is room.
-/

namespace ShardQuery

/-- The arithmetic that summaries need: four operations, counts as numbers, and an order that
tells any two numbers apart. -/
class Arithmetic (α : Type) extends Add α, Sub α, Mul α, Div α where
  zero : α
  ofCount : UInt64 → α
  order : α → α → Ordering

instance : Arithmetic Double where
  zero := .zero
  ofCount := .ofCount
  order a b := compare a.bits b.bits

structure Moments (α : Type) where
  count : UInt64
  mean : α
  /-- The sum of the squared deviations from the mean. -/
  deviation : α
deriving DecidableEq

namespace Moments

variable {α : Type} [Arithmetic α]

def empty : Moments α := ⟨0, Arithmetic.zero, Arithmetic.zero⟩

instance : Inhabited (Moments α) := ⟨empty⟩

def add (m : Moments α) (value : α) : Moments α :=
  let count := m.count + 1
  let delta := value - m.mean
  let mean := m.mean + delta / Arithmetic.ofCount count
  ⟨count, mean, m.deviation + delta * (value - mean)⟩

/-- The order in which two summaries are combined: by count, then mean, then deviation. -/
def order (a b : Moments α) : Ordering :=
  (compare a.count b.count).then
    ((Arithmetic.order a.mean b.mean).then (Arithmetic.order a.deviation b.deviation))

/-- The summary of the values of both, neither being empty, with `a` the first in order. -/
def combine (a b : Moments α) : Moments α :=
  let count := a.count + b.count
  let n : α := Arithmetic.ofCount count
  let delta := b.mean - a.mean
  { count
    mean := a.mean + delta * Arithmetic.ofCount b.count / n
    deviation := a.deviation + b.deviation +
      delta * delta * Arithmetic.ofCount a.count * Arithmetic.ofCount b.count / n }

def merge (a b : Moments α) : Moments α :=
  if a.count = 0 then b
  else if b.count = 0 then a
  else if a.order b = .gt then combine b a
  else combine a b

/-- The variance of the values as a whole population; nothing without values. -/
def variance (m : Moments α) : Option α :=
  if m.count = 0 then none
  else if m.count = 1 then some Arithmetic.zero
  else some (m.deviation / Arithmetic.ofCount m.count)

end Moments

end ShardQuery
