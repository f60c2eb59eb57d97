import ShardQuery.Number.Double
/-!
# Reading decimals

The double of a decimal: its significand as a double, scaled by a power of ten
in one multiplication or division.
-/

namespace ShardQuery.Decimal

def power (n : Nat) : Double := .ofInt (Nat.pow 10 n)

/-- `x · 10 ^ exponent`, or nothing where that is out of range. Exponents below the least power of
ten are taken off in steps, which ends at zero. -/
def scale (x : Double) (exponent : Int) : Option Double :=
  if exponent.natAbs ≤ 308 then
    if 0 ≤ exponent then
      let y := x * power exponent.natAbs
      if y.isInfinite then none else some y
    else some (x / power exponent.natAbs)
  else if x.isZero then some x
  else if 0 ≤ exponent then none
  else scale (x / power 308) (exponent + 308)
termination_by exponent.natAbs
decreasing_by omega

def read (negative : Bool) (significand : UInt64) (exponent : Int) : Option Double :=
  (scale (.ofCount significand) exponent).map fun x => if negative then x.neg else x

end ShardQuery.Decimal
