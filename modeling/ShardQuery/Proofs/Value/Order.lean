import Mathlib.Data.String.Basic
import Mathlib.Data.Sum.Order
import ShardQuery.Proofs.Function.Scalar
import ShardQuery.Proofs.Number.Single
/-!
# The order of the values of one type

The values of a type are ordered by their places on a line. Of the values of singles
the NaNs must be left out, as some of them share a place.
-/

namespace ShardQuery

namespace Value

def place : Value → Int ⊕ₗ String
  | boolean value => Sum.inlₗ value.toNat
  | byte value => Sum.inlₗ value.toInt
  | short value => Sum.inlₗ value.toInt
  | integer value => Sum.inlₗ value.toInt
  | long value => Sum.inlₗ value.toInt
  | float value => Sum.inlₗ value.toDouble.rank
  | double value => Sum.inlₗ value.rank
  | string value => Sum.inrₗ value
  | timestamp millis => Sum.inlₗ millis.toInt
  | null | state _ => Sum.inlₗ 0

theorem compare_inl (m n : Int) :
    compare (Sum.inlₗ m : Int ⊕ₗ String) (Sum.inlₗ n) = compare m n := by
  rw [← cmp_eq_compare, ← cmp_eq_compare]
  exact Sum.Lex.inl_strictMono.cmp_map_eq m n

theorem compare_inr (s t : String) :
    compare (Sum.inrₗ s : Int ⊕ₗ String) (Sum.inrₗ t) = compareOfLessAndEq s t := by
  rw [← cmp_eq_compare]
  refine (Sum.Lex.inr_strictMono.cmp_map_eq s t).trans ?_
  rw [cmp_eq_compare, LinearOrder.compare_eq_compareOfLessAndEq]

variable {v w : Value}

theorem compare?_eq_place (hv : v ≠ .null) (hc : v.dataType.isComparable = true)
    (h : v.dataType = w.dataType) : v.compare? w = some (compare v.place w.place) := by
  cases v <;> cases w <;> simp only [dataType, reduceCtorEq] at h
  case null.null => exact absurd rfl hv
  case state.state => cases hc
  case boolean.boolean a b =>
    simp only [compare?, place, compare_inl]
    cases a <;> cases b <;> rfl
  case string.string s t => exact congrArg some (compare_inr s t).symm
  case timestamp.timestamp m n => exact congrArg some (compare_inl m.toInt n.toInt).symm
  all_goals
    simp only [compare?, dataType, DataType.isIntegral, DataType.isNumeric, DataType.isFloating,
      long?, double?, place, compare_inl]
    simp [Double.order]

/-- A value that two singles may share a place with. -/
def isSingleNaN : Value → Bool
  | float value => value.isNaN
  | _ => false

/-- No two values of a type share a place, NaNs of singles apart. -/
theorem place_injective (hv : v ≠ .null) (hc : v.dataType.isComparable = true)
    (h : v.dataType = w.dataType) (hvn : v.isSingleNaN = false) (hwn : w.isSingleNaN = false)
    (hp : v.place = w.place) : v = w := by
  cases v <;> cases w <;> simp only [dataType, reduceCtorEq] at h
  case null.null => exact absurd rfl hv
  case state.state => cases hc
  case boolean.boolean a b =>
    cases a <;> cases b <;> first | rfl | cases hp
  case float.float x y =>
    have hrank : x.toDouble.rank = y.toDouble.rank := Sum.inl.inj (toLex.injective hp)
    rw [Single.toDouble_injective hvn hwn (Double.rank_injective hrank)]
  case double.double x y =>
    have hrank : x.rank = y.rank := Sum.inl.inj (toLex.injective hp)
    rw [Double.rank_injective hrank]
  case string.string s t => rw [Sum.inr.inj (toLex.injective hp)]
  all_goals
    have hint := Sum.inl.inj (toLex.injective hp)
    simpa [Int8.toInt_inj, Int16.toInt_inj, Int32.toInt_inj, Int64.toInt_inj] using hint

end Value

end ShardQuery
