import ShardQuery.Number.Single
/-!
# The fewest digits that read back

A finite number stands for all reals that round to it. Of the decimals in that
interval the ones with the fewest digits are looked for, and of those the one
nearest to the number is taken.
-/

namespace ShardQuery.Shortest

/-- A finite magnitude `significand · 2 ^ exponent`. -/
structure Binary where
  significand : Nat
  exponent : Int
  /-- The gap to the value below is half the gap to the value above. -/
  narrowBelow : Bool
  /-- So many digits always read back. -/
  digitBound : Nat

def Binary.ofDouble (x : Double) : Binary :=
  let (significand, exponent) := Format.double.parts x.magnitude
  ⟨significand, exponent, significand == 0x10000000000000 && exponent != -1074, 17⟩

def Binary.ofSingle (x : Single) : Binary :=
  let (significand, exponent) := Format.single.parts x.magnitude
  ⟨significand, exponent, significand == 0x800000 && exponent != -149, 9⟩

/-- The decimal `digits · 10 ^ exponent`. -/
structure Decimal where
  digits : Nat
  exponent : Int

/-- Of two candidates that are equally near, the upper or the even one. -/
inductive Tie where
  | up
  | even

/-- A point of the grid `10 ^ grid` that reads back as `x`, the nearest of its two neighbours
there. -/
def Binary.onGrid? (x : Binary) (tie : Tie) (grid : Int) : Option Decimal :=
  let up := Nat.pow 10 (-grid).toNat <<< x.exponent.toNat
  let unit := 4 * Nat.pow 10 grid.toNat <<< (-x.exponent).toNat
  let value := 4 * x.significand * up
  let low := (if x.narrowBelow then 4 * x.significand - 1 else 4 * x.significand - 2) * up
  let high := (4 * x.significand + 2) * up
  let closed := x.significand % 2 == 0
  let inside (d : Nat) : Bool :=
    (low < d * unit || (closed && low == d * unit)) &&
      (d * unit < high || (closed && d * unit == high))
  let below := value / unit
  let above := below + 1
  let first : Decimal := ⟨below, grid⟩
  let second : Decimal := ⟨above, grid⟩
  match 0 < below && inside below, inside above with
  | true, true =>
    match compare (2 * value) ((below + above) * unit), tie with
    | .lt, _ => some first
    | .gt, _ => some second
    | .eq, .up => some second
    | .eq, .even => some (if below % 2 == 0 then first else second)
  | true, false => some first
  | false, true => some second
  | false, false => none

def Decimal.strip : Nat → Decimal → Decimal
  | 0, d => d
  | fuel + 1, d =>
    if d.digits % 10 == 0 && d.digits != 0 then strip fuel ⟨d.digits / 10, d.exponent + 1⟩ else d

/-- The least `k` from `start` on, within `fuel` steps, with `x < 10 ^ k`. -/
def Binary.scaleFrom (x : Binary) : Nat → Int → Int
  | 0, k => k
  | fuel + 1, k =>
    if (x.significand * Nat.pow 10 (-k).toNat) <<< x.exponent.toNat <
        Nat.pow 10 k.toNat <<< (-x.exponent).toNat then k
    else x.scaleFrom fuel (k + 1)

/-- The least `k` with `x < 10 ^ k`: an estimate from the binary logarithm, at most one short of
it, then corrected upwards. -/
def Binary.scale (x : Binary) : Int :=
  let binary := (x.significand.log2 : Int) + x.exponent
  x.scaleFrom 4 (binary * 30103 / 100000 - 1)

def Binary.shortest (x : Binary) (tie : Tie) : Decimal :=
  let scale := x.scale
  let found := (List.range x.digitBound).findSome? fun (n : Nat) => x.onGrid? tie (scale - (n + 1))
  let exact : Decimal :=
    ⟨(x.significand * Nat.pow 5 (-x.exponent).toNat) <<< x.exponent.toNat, min x.exponent 0⟩
  (found.getD exact).strip 1100

end ShardQuery.Shortest
