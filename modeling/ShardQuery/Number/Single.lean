import ShardQuery.Number.Double
/-!
# Singles by their bits

Every single is a double as well; going back rounds to the nearest single.
-/

namespace ShardQuery

structure Single where
  bits : UInt32
deriving DecidableEq, Inhabited, Repr

namespace Single

def magnitude (x : Single) : Nat := x.bits.toNat % 0x80000000

def isNegative (x : Single) : Bool := 0x80000000 ≤ x.bits.toNat

def isNaN (x : Single) : Bool := 0x7f800000 < x.magnitude

def isInfinite (x : Single) : Bool := x.magnitude == 0x7f800000

def ofMagnitude (negative : Bool) (magnitude : Nat) : Single :=
  ⟨UInt32.ofNat (if negative then magnitude + 0x80000000 else magnitude)⟩

def round (negative : Bool) (m : Nat) (exponent : Int) : Single :=
  ofMagnitude negative (Format.single.round m exponent)

/-- The same number as a double. A NaN keeps its sign and payload and becomes quiet. -/
def toDouble (x : Single) : Double :=
  if x.isNaN then
    (Double.ofMagnitude x.isNegative (0x7ff0000000000000 + (x.magnitude - 0x7f800000) <<< 29)).quiet
  else if x.isInfinite then Double.infinity x.isNegative
  else
    let (m, e) := Format.single.parts x.magnitude
    Double.round x.isNegative m e

/-- The nearest single. A NaN keeps its sign and the upper bits of its payload, and becomes
quiet. -/
def ofDouble (x : Double) : Single :=
  if x.isNaN then ofMagnitude x.isNegative (0x7fc00000 + (x.magnitude % 0x8000000000000) >>> 29)
  else if x.isInfinite then ofMagnitude x.isNegative Format.single.infinity
  else
    let (m, e) := x.parts
    round x.isNegative m e

def ofInt (n : Int) : Single := round (n < 0) n.natAbs 0

end Single

end ShardQuery
