import ShardQuery.Number.Shortest
/-!
# Number text

How the digits of a number are laid out: positionally or with an exponent, with
or without a fraction of zero. Each kind of output has one `Layout`.
-/

namespace ShardQuery

structure Layout where
  /-- The exponents of the leading digit, from and below, that are written positionally; all of
  them if absent. -/
  positional : Option (Int × Int)
  /-- What follows the digits of a whole number. -/
  wholeTail : String
  /-- What stands before a non-negative exponent. -/
  exponentPlus : String
  tie : Shortest.Tie

namespace Layout

/-- Plain text: every digit in its place, and whole numbers without a point. -/
def plain : Layout where
  positional := none
  wholeTail := ""
  exponentPlus := ""
  tie := .up

/-- Numbers in documents: whole numbers keep a fraction of zero, and the leading digit of a
positional number has an exponent from -5 to 15. -/
def document : Layout where
  positional := some (-5, 16)
  wholeTail := ".0"
  exponentPlus := "+"
  tie := .even

def zeros (n : Nat) : String := String.ofList (List.replicate n '0')

def digits (layout : Layout) (d : Shortest.Decimal) : String :=
  let text := toString d.digits
  let count := text.length
  let leading := d.exponent + count - 1
  let isPositional := match layout.positional with
    | none => true
    | some (low, high) => low ≤ leading && leading < high
  if isPositional then
    if 0 ≤ d.exponent then text ++ zeros d.exponent.toNat ++ layout.wholeTail
    else if 0 ≤ leading then
      let whole := leading.toNat + 1
      String.ofList (text.toList.take whole) ++ "." ++ String.ofList (text.toList.drop whole)
    else "0." ++ zeros (-leading - 1).toNat ++ text
  else
    let head := String.ofList (text.toList.take 1)
    let tail := text.toList.drop 1
    let mantissa := if tail.isEmpty then head else head ++ "." ++ String.ofList tail
    let power := if 0 ≤ leading then layout.exponentPlus ++ toString leading.toNat
      else "-" ++ toString (-leading).toNat
    mantissa ++ "e" ++ power

def signed (negative : Bool) (text : String) : String := if negative then "-" ++ text else text

def double (layout : Layout) (x : Double) : String :=
  if x.isNaN then "NaN"
  else signed x.isNegative <|
    if x.isInfinite then "inf"
    else if x.isZero then "0" ++ layout.wholeTail
    else layout.digits ((Shortest.Binary.ofDouble x).shortest layout.tie)

def single (layout : Layout) (x : Single) : String :=
  if x.isNaN then "NaN"
  else signed x.isNegative <|
    if x.isInfinite then "inf"
    else if x.magnitude = 0 then "0" ++ layout.wholeTail
    else layout.digits ((Shortest.Binary.ofSingle x).shortest layout.tie)

end Layout

end ShardQuery
