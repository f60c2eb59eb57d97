import ShardQuery.Number.Rounding
/-!
# Doubles by their bits

A double is its sixty-four bits, so equality of doubles is equality of bits:
the two zeros differ and every NaN keeps its sign and payload. An operation is
carried out exactly and its result is rounded once.
-/

namespace ShardQuery

/-- An IEEE 754 binary64 number. -/
structure Double where
  bits : UInt64
deriving DecidableEq, Inhabited, Repr

namespace Double

def zero : Double := ⟨0⟩

/-- All bits but the sign, as a number: finite values are ordered by it. -/
def magnitude (x : Double) : Nat := x.bits.toNat % 0x8000000000000000

def isNegative (x : Double) : Bool := 0x8000000000000000 ≤ x.bits.toNat

def isNaN (x : Double) : Bool := 0x7ff0000000000000 < x.magnitude

def isFinite (x : Double) : Bool := x.magnitude < 0x7ff0000000000000

def isInfinite (x : Double) : Bool := x.magnitude == 0x7ff0000000000000

def isZero (x : Double) : Bool := x.magnitude == 0

/-- The answer to an operation without a value, such as zero by zero. -/
def indeterminate : Double := ⟨0xfff8000000000000⟩

/-- A NaN that an operation passes on has its quiet bit set. -/
def quiet (x : Double) : Double := ⟨x.bits ||| 0x0008000000000000⟩

def ofMagnitude (negative : Bool) (magnitude : Nat) : Double :=
  ⟨UInt64.ofNat (if negative then magnitude + 0x8000000000000000 else magnitude)⟩

def infinity (negative : Bool) : Double := ofMagnitude negative Format.double.infinity

def round (negative : Bool) (m : Nat) (exponent : Int) : Double :=
  ofMagnitude negative (Format.double.round m exponent)

def parts (x : Double) : Nat × Int := Format.double.parts x.magnitude

def neg (x : Double) : Double := ⟨x.bits ^^^ 0x8000000000000000⟩

/-- What comes of two operands by the operation on numbers, unless one is a NaN: the first NaN is
passed on. -/
def lift (op : Double → Double → Double) (a b : Double) : Double :=
  if a.isNaN then a.quiet else if b.isNaN then b.quiet else op a b

/-- An exact sum of zero is positive, unless both operands are negative. -/
def addNumbers (a b : Double) : Double :=
  if a.isInfinite then
    if b.isInfinite && a.isNegative != b.isNegative then indeterminate else a
  else if b.isInfinite then b
  else
    let (m, e) := a.parts
    let (n, f) := b.parts
    let low := min e f
    let signed (negative : Bool) (n : Int) : Int := if negative then -n else n
    let sum := signed a.isNegative (m <<< (e - low).toNat) +
      signed b.isNegative (n <<< (f - low).toNat)
    if sum = 0 then ofMagnitude (a.isNegative && b.isNegative) 0
    else round (sum < 0) sum.natAbs low

def mulNumbers (a b : Double) : Double :=
  let negative := a.isNegative != b.isNegative
  if a.isInfinite || b.isInfinite then
    if a.isZero || b.isZero then indeterminate else infinity negative
  else
    let (m, e) := a.parts
    let (n, f) := b.parts
    round negative (m * n) (e + f)

def divNumbers (a b : Double) : Double :=
  let negative := a.isNegative != b.isNegative
  if (a.isInfinite && b.isInfinite) || (a.isZero && b.isZero) then indeterminate
  else if a.isInfinite || b.isZero then infinity negative
  else if b.isInfinite then ofMagnitude negative 0
  else
    let (m, e) := a.parts
    let (n, f) := b.parts
    let (q, g) := Rounding.quotient m n (e - f)
    round negative q g

/-- The remainder of truncated division, which is exact, with the sign of the dividend. -/
def modNumbers (a b : Double) : Double :=
  if a.isInfinite || b.isZero then indeterminate
  else if b.isInfinite then a
  else
    let (m, e) := a.parts
    let (n, f) := b.parts
    let low := min e f
    round a.isNegative (m <<< (e - low).toNat % (n <<< (f - low).toNat)) low

instance : Add Double := ⟨lift addNumbers⟩
instance : Sub Double := ⟨lift fun a b => addNumbers a b.neg⟩
instance : Mul Double := ⟨lift mulNumbers⟩
instance : Div Double := ⟨lift divNumbers⟩
instance : Mod Double := ⟨lift modNumbers⟩

def sqrt (x : Double) : Double :=
  if x.isNaN then x.quiet
  else if x.isZero then x
  else if x.isNegative then indeterminate
  else if x.isInfinite then x
  else
    let (m, e) := x.parts
    let (r, f) := Rounding.root m e
    round false r f

def ofInt (n : Int) : Double := round (n < 0) n.natAbs 0

def ofCount (n : UInt64) : Double := round false n.toNat 0

def ofInt64 (n : Int64) : Double := ofInt n.toInt

/-- Equality of numbers: the zeros are equal, and a NaN equals nothing. -/
def numEq (a b : Double) : Bool :=
  !a.isNaN && !b.isNaN && (a == b || (a.isZero && b.isZero))

/-- The place of a double in the total order of all bit patterns: negative NaNs first, then the
numbers with negative zero below positive zero, positive NaNs last. -/
def rank (x : Double) : Int :=
  if x.isNegative then -(x.magnitude : Int) - 1 else x.magnitude

def order (a b : Double) : Ordering := compare a.rank b.rank

end Double

end ShardQuery
