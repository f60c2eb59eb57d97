/-!
# Rounding to a binary format

Finite numbers of a format are a significand times a power of two. A result that a
format cannot hold is rounded to the nearest number that it can, and of two equally
near ones to that with the even significand. Results out of range become infinite.
-/

namespace ShardQuery

structure Format where
  /-- The bits of a significand behind its leading bit. -/
  fraction : Nat
  /-- The exponent of the smallest positive number. -/
  least : Int
  /-- The bits of infinity. -/
  infinity : Nat

namespace Format

def double : Format := ⟨52, -1074, 0x7ff0000000000000⟩

def single : Format := ⟨23, -149, 0x7f800000⟩

/-- The nearest integer to `m / 2 ^ count`, the even one of two that are equally near. -/
def dropBits (m count : Nat) : Nat :=
  let quotient := m >>> count
  let rest := 2 * (m % 1 <<< count)
  if rest < 1 <<< count ∨ (rest = 1 <<< count ∧ quotient % 2 = 0) then quotient
  else quotient + 1

/-- The bits of the number nearest to `m · 2 ^ exponent`. As the numbers of a format are in the
order of their bits, a significand that rounds up to the next power of two carries into the
exponent. -/
def round (format : Format) (m : Nat) (exponent : Int) : Nat :=
  if m = 0 then 0
  else
    let last := max format.least (exponent + m.log2 - format.fraction)
    let significand :=
      if last ≤ exponent then m <<< (exponent - last).toNat
      else dropBits m (last - exponent).toNat
    min ((last - format.least).toNat <<< format.fraction + significand) format.infinity

def parts (format : Format) (magnitude : Nat) : Nat × Int :=
  let field := magnitude >>> format.fraction
  let fraction := magnitude % 1 <<< format.fraction
  if field = 0 then (fraction, format.least)
  else (1 <<< format.fraction + fraction, format.least + field - 1)

end Format

namespace Rounding

/-- A quotient to more bits than any format keeps. Whether a remainder was left over shows in the
last bit, which is all that rounding needs to know. -/
def quotient (m n : Nat) (exponent : Int) : Nat × Int :=
  let extra := n.log2 + 56
  let scaled := m <<< extra
  (2 * (scaled / n) + (if scaled % n = 0 then 0 else 1), exponent - extra - 1)

/-- The integer square root of a number below `4 ^ digits`. -/
def squareRoot : (digits n : Nat) → Nat
  | 0, _ => 0
  | digits + 1, n =>
    let root := 2 * squareRoot digits (n / 4)
    if (root + 1) * (root + 1) ≤ n then root + 1 else root

/-- The square root of `m · 2 ^ exponent` like `quotient`. -/
def root (m : Nat) (exponent : Int) : Nat × Int :=
  let extra := 112 + (exponent % 2).toNat
  let scaled := m <<< extra
  let root := squareRoot (scaled.log2 / 2 + 1) scaled
  (2 * root + (if root * root = scaled then 0 else 1), (exponent - extra) / 2 - 1)

end Rounding

end ShardQuery
