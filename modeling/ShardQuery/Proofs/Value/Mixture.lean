import ShardQuery.Proofs.Number.Rounding
import ShardQuery.Proofs.Value.Order
/-!
# Comparing values of several types

Integers of all widths lie on one line, and so do singles and doubles. Between an
integer and a double the integer is rounded, so a double can be equal to two integers
that differ. Values without an order count as equal in sorts; they too may then be
equal to two values that differ. Nothing else keeps the order from being transitive.
-/

namespace ShardQuery

-- ---------------------------------------------------------------------------
-- Lines
-- ---------------------------------------------------------------------------

section Lines

variable {α β : Type} [LinearOrder α] [LinearOrder β]

theorem compare_then {x y z : α} (hxy : compare x y ≠ .gt) (hyz : compare y z ≠ .gt) :
    compare x z = (compare x y).then (compare y z) := by
  rw [Ne, compare_gt_iff_gt, not_lt] at hxy hyz
  rcases hxy.lt_or_eq with hlt | rfl
  · rw [compare_lt_iff_lt.mpr hlt, compare_lt_iff_lt.mpr (hlt.trans_le hyz)]
    rfl
  · rw [compare_eq_iff_eq.mpr rfl]
    rfl

-- In what follows the points `x`, `y`, `z` of a fine line become `p`, `q`, `r` on a coarse one.

theorem compare_then_left {x y : α} {p q r : β} (hle : x ≤ y → p ≤ q) (hge : y ≤ x → q ≤ p)
    (hapart : ¬(x ≠ y ∧ r = p ∧ r = q)) (hxy : compare x y ≠ .gt) (hqr : compare q r ≠ .gt) :
    compare p r = (compare x y).then (compare q r) := by
  rw [Ne, compare_gt_iff_gt, not_lt] at hxy hqr
  have hpq := hle hxy
  rcases hxy.lt_or_eq with hlt | heq
  · have hpr : p ≠ r := fun h => hapart ⟨hlt.ne, h.symm, le_antisymm (h ▸ hpq) hqr⟩
    rw [compare_lt_iff_lt.mpr hlt, compare_lt_iff_lt.mpr (lt_of_le_of_ne (hpq.trans hqr) hpr)]
    rfl
  · rw [compare_eq_iff_eq.mpr heq, le_antisymm hpq (hge heq.ge)]
    rfl

theorem compare_then_right {y z : α} {p q r : β} (hle : y ≤ z → q ≤ r) (hge : z ≤ y → r ≤ q)
    (hapart : ¬(y ≠ z ∧ p = q ∧ p = r)) (hpq : compare p q ≠ .gt) (hyz : compare y z ≠ .gt) :
    compare p r = (compare p q).then (compare y z) := by
  rw [Ne, compare_gt_iff_gt, not_lt] at hpq hyz
  have hqr := hle hyz
  rcases hyz.lt_or_eq with hlt | heq
  · have hpr : p ≠ r := fun h => hapart ⟨hlt.ne, le_antisymm hpq (h ▸ hqr), h⟩
    rw [compare_lt_iff_lt.mpr hlt, compare_lt_iff_lt.mpr (lt_of_le_of_ne (hpq.trans hqr) hpr)]
    rcases hpq.lt_or_eq with hpq | hpq
    · rw [compare_lt_iff_lt.mpr hpq]
      rfl
    · rw [compare_eq_iff_eq.mpr hpq]
      rfl
  · rw [compare_eq_iff_eq.mpr heq, le_antisymm hqr (hge heq.ge), Ordering.then_eq]

theorem compare_then_across {x z : α} {p q r : β} (hge : z ≤ x → r ≤ p)
    (hapart : ¬(x ≠ z ∧ q = p ∧ q = r)) (hpq : compare p q ≠ .gt) (hqr : compare q r ≠ .gt) :
    compare x z = (compare p q).then (compare q r) := by
  rw [← compare_then hpq hqr]
  rw [Ne, compare_gt_iff_gt, not_lt] at hpq hqr
  have hsame (h : p = r) : x = z := by
    by_contra hne
    exact hapart ⟨hne, le_antisymm (h ▸ hqr) hpq, le_antisymm hqr (h ▸ hpq)⟩
  rcases (hpq.trans hqr).lt_or_eq with hlt | heq
  · rw [compare_lt_iff_lt.mpr hlt, compare_lt_iff_lt.mpr (lt_of_not_ge fun h => hlt.not_ge (hge h))]
  · rw [compare_eq_iff_eq.mpr heq, compare_eq_iff_eq.mpr (hsame heq)]

end Lines

namespace Value

variable {a b c u v w : Value}

-- ---------------------------------------------------------------------------
-- Which values have an order
-- ---------------------------------------------------------------------------

/-- Values have an order if they are in one lane: numbers are, and else values of one type. -/
def lane : Value → Option DataType
  | null | state _ => none
  | byte _ | short _ | integer _ | long _ | float _ | double _ => some .double
  | boolean _ => some .boolean
  | string _ => some .string
  | timestamp _ => some .timestamp

theorem compare?_eq_none_iff : a.compare? b = none ↔ a.lane = none ∨ a.lane ≠ b.lane := by
  cases a <;> cases b <;>
    simp [compare?, lane, dataType, DataType.isNumeric, DataType.isIntegral, DataType.isFloating,
      long?, double?]

theorem isComparable_of_lane (h : a.lane ≠ none) : a.dataType.isComparable = true := by
  cases a <;> first | rfl | exact absurd rfl h

theorem ne_null_of_lane (h : a.lane ≠ none) : a ≠ .null := by
  rintro rfl
  exact h rfl

theorem dataType_eq_of_lane (hnumber : a.lane ≠ some .double) (hnone : a.lane ≠ none)
    (h : a.lane = b.lane) : a.dataType = b.dataType := by
  cases a <;> cases b <;> simp_all [lane, dataType]

theorem isFloating_iff (h : a.lane = some .double) :
    a.dataType.isFloating = true ↔ a.dataType.isIntegral = false := by
  cases a <;> simp_all [lane, dataType, DataType.isFloating, DataType.isIntegral]

-- ---------------------------------------------------------------------------
-- Numbers
-- ---------------------------------------------------------------------------

def rank (v : Value) : Int := (v.double?.getD .zero).rank

theorem exists_integer (h : a.dataType.isIntegral = true) :
    ∃ n : Int, a.place = Sum.inlₗ n ∧ a.rank = (Double.ofInt n).rank := by
  cases a <;> first
    | exact absurd h Bool.false_ne_true
    | exact ⟨_, rfl, by simp [rank, double?, long?, Double.ofInt64]⟩

theorem compare?_of_integral (ha : a.dataType.isIntegral = true)
    (hb : b.dataType.isIntegral = true) : a.compare? b = some (compare a.place b.place) := by
  cases a <;> cases b <;>
    simp_all [compare?, dataType, DataType.isIntegral, long?, place, compare_inl]

theorem compare?_of_floating (ha : a.lane = some .double) (hb : b.lane = some .double)
    (h : a.dataType.isFloating = true ∨ b.dataType.isFloating = true) :
    a.compare? b = some (compare a.rank b.rank) := by
  cases a <;> cases b <;>
    simp_all [lane, compare?, dataType, DataType.isIntegral, DataType.isNumeric,
      DataType.isFloating, double?, long?, rank, Double.order]

/-- Rounding to doubles keeps the order of integers, but may make them equal. -/
theorem rank_mono (ha : a.dataType.isIntegral = true) (hb : b.dataType.isIntegral = true)
    (h : a.place ≤ b.place) : a.rank ≤ b.rank := by
  obtain ⟨m, hm, hmrank⟩ := exists_integer ha
  obtain ⟨n, hn, hnrank⟩ := exists_integer hb
  rw [hm, hn, Sum.Lex.inl_le_inl_iff] at h
  rw [hmrank, hnrank]
  exact Double.rank_ofInt_mono h

theorem compare?_exact (hnone : a.lane ≠ none) (hlane : a.lane = b.lane)
    (h : a.lane ≠ some .double ∨ (a.dataType.isIntegral = true ∧ b.dataType.isIntegral = true)) :
    a.compare? b = some (compare a.place b.place) := by
  rcases h with h | ⟨ha, hb⟩
  · exact compare?_eq_place (ne_null_of_lane hnone) (isComparable_of_lane hnone)
      (dataType_eq_of_lane h hnone hlane)
  · exact compare?_of_integral ha hb

theorem compare?_swap (a b : Value) : b.compare? a = (a.compare? b).map Ordering.swap := by
  by_cases hnone : a.lane = none ∨ b.lane = none ∨ a.lane ≠ b.lane
  · have hab : a.compare? b = none := compare?_eq_none_iff.mpr (by grind)
    have hba : b.compare? a = none := compare?_eq_none_iff.mpr (by grind)
    rw [hab, hba]
    rfl
  · simp only [not_or, not_not] at hnone
    obtain ⟨ha, hb, hlane⟩ := hnone
    by_cases hexact : a.lane ≠ some .double ∨
        (a.dataType.isIntegral = true ∧ b.dataType.isIntegral = true)
    · rw [compare?_exact ha hlane hexact, compare?_exact hb hlane.symm (by grind)]
      exact congrArg some Std.OrientedCmp.eq_swap
    · simp only [not_or, not_not, not_and_or, Bool.not_eq_true] at hexact
      obtain ⟨hnumber, hfloating⟩ := hexact
      have hbnumber := hlane ▸ hnumber
      rw [← isFloating_iff hnumber, ← isFloating_iff hbnumber] at hfloating
      rw [compare?_of_floating hnumber hbnumber hfloating,
        compare?_of_floating hbnumber hnumber hfloating.symm]
      exact congrArg some Std.OrientedCmp.eq_swap

-- ---------------------------------------------------------------------------
-- The order of sorts
-- ---------------------------------------------------------------------------

/-- The order of two values in a sort: those without one count as equal. -/
def order (a b : Value) : Ordering := (a.compare? b).getD .eq

theorem order_swap (a b : Value) : b.order a = (a.order b).swap := by
  rw [order, order, compare?_swap a b]
  cases a.compare? b <;> rfl

theorem order_of_compare? {o : Ordering} (h : a.compare? b = some o) : a.order b = o := by
  rw [order, h]
  rfl

theorem compare?_of_order {o : Ordering} (h : a.order b = o) (ho : o ≠ .eq) :
    a.compare? b = some o := by
  unfold order at h
  rcases hcompare : a.compare? b with _ | p
  · rw [hcompare] at h
    exact absurd h.symm ho
  · rw [hcompare] at h
    exact congrArg some h

theorem order_of_lanes (h : a.lane = none ∨ a.lane ≠ b.lane) : a.order b = .eq := by
  rw [order, compare?_eq_none_iff.mpr h]
  rfl

theorem order_exact (hnone : a.lane ≠ none) (hlane : a.lane = b.lane) (h : a.lane ≠ some .double) :
    a.order b = compare a.place b.place :=
  order_of_compare? (compare?_exact hnone hlane (.inl h))

theorem order_integers (ha : a.dataType.isIntegral = true) (hb : b.dataType.isIntegral = true) :
    a.order b = compare a.place b.place :=
  order_of_compare? (compare?_of_integral ha hb)

theorem order_rounded (ha : a.lane = some .double) (hb : b.lane = some .double)
    (h : a.dataType.isFloating = true ∨ b.dataType.isFloating = true) :
    a.order b = compare a.rank b.rank :=
  order_of_compare? (compare?_of_floating ha hb h)

-- ---------------------------------------------------------------------------
-- Values that blur others
-- ---------------------------------------------------------------------------

/-- The first value counts as equal to two others although these are in order: it has no order
with them, or they are integers and it is the double that both of them are rounded to. -/
structure Blurs (v u w : Value) : Prop where
  value : v ≠ .null
  apart : u.compare? w = some .lt ∨ u.compare? w = some .gt
  tied : (v.compare? u = none ∧ v.compare? w = none) ∨
    (v.dataType.isFloating = true ∧ u.dataType.isIntegral = true ∧ w.dataType.isIntegral = true ∧
      v.compare? u = some .eq ∧ v.compare? w = some .eq)

structure Clear (a b c : Value) : Prop where
  first : ¬ a.Blurs b c
  second : ¬ b.Blurs a c
  third : ¬ c.Blurs a b

instance : Decidable (v.Blurs u w) :=
  decidable_of_iff (v ≠ .null ∧ (u.compare? w = some .lt ∨ u.compare? w = some .gt) ∧
    ((v.compare? u = none ∧ v.compare? w = none) ∨
      (v.dataType.isFloating = true ∧ u.dataType.isIntegral = true ∧
        w.dataType.isIntegral = true ∧ v.compare? u = some .eq ∧ v.compare? w = some .eq)))
    ⟨fun ⟨hv, ha, ht⟩ => ⟨hv, ha, ht⟩, fun h => ⟨h.value, h.apart, h.tied⟩⟩

instance : Decidable (a.Clear b c) :=
  decidable_of_iff (¬ a.Blurs b c ∧ ¬ b.Blurs a c ∧ ¬ c.Blurs a b)
    ⟨fun ⟨ha, hb, hc⟩ => ⟨ha, hb, hc⟩, fun h => ⟨h.first, h.second, h.third⟩⟩

theorem Blurs.symm (h : v.Blurs u w) : v.Blurs w u := by
  refine ⟨h.value, ?_, ?_⟩
  · rw [compare?_swap u w]
    rcases h.apart with h | h <;> rw [h]
    · exact .inr rfl
    · exact .inl rfl
  · rcases h.tied with ⟨hu, hw⟩ | ⟨hv, hu, hw, hvu, hvw⟩
    · exact .inl ⟨hw, hu⟩
    · exact .inr ⟨hv, hw, hu, hvw, hvu⟩

theorem Blurs.left_ne_null (h : v.Blurs u w) : u ≠ .null := by
  rintro rfl
  rcases h.apart with h | h <;> cases h

theorem Blurs.order_left (h : v.Blurs u w) : v.order u = .eq := by
  rcases h.tied with ⟨hu, -⟩ | ⟨-, -, -, hu, -⟩ <;> rw [order, hu] <;> rfl

theorem Blurs.order_apart (h : v.Blurs u w) : u.order w ≠ .eq := by
  rcases h.apart with h | h <;> rw [order, h] <;> exact Ordering.noConfusion

theorem Clear.reverse (h : a.Clear b c) : c.Clear b a :=
  ⟨fun hb => h.third hb.symm, fun hb => h.second hb.symm, fun hb => h.first hb.symm⟩

theorem Blurs.of_lanes (hv : v ≠ .null) (hapart : u.order w ≠ .eq)
    (hu : v.lane = none ∨ v.lane ≠ u.lane) (hw : v.lane = none ∨ v.lane ≠ w.lane) :
    v.Blurs u w := by
  refine ⟨hv, ?_, .inl ⟨compare?_eq_none_iff.mpr hu, compare?_eq_none_iff.mpr hw⟩⟩
  cases hcompare : u.order w with
  | lt => exact .inl (compare?_of_order hcompare Ordering.noConfusion)
  | gt => exact .inr (compare?_of_order hcompare Ordering.noConfusion)
  | eq => exact absurd hcompare hapart

theorem lane_of_isIntegral (h : a.dataType.isIntegral = true) : a.lane = some .double := by
  cases a <;> first | rfl | cases h

theorem lane_of_isFloating (h : a.dataType.isFloating = true) : a.lane = some .double := by
  cases a <;> first | rfl | cases h

theorem Blurs.of_rounded (hv : v.dataType.isFloating = true) (hu : u.dataType.isIntegral = true)
    (hw : w.dataType.isIntegral = true) (hapart : u.place ≠ w.place) (hvu : v.rank = u.rank)
    (hvw : v.rank = w.rank) : v.Blurs u w := by
  have hnumber := lane_of_isFloating hv
  refine ⟨ne_null_of_lane (by rw [hnumber]; exact Option.some_ne_none _), ?_,
    .inr ⟨hv, hu, hw, ?_, ?_⟩⟩
  · rw [compare?_of_integral hu hw]
    rcases lt_or_gt_of_ne hapart with hlt | hgt
    · exact .inl (congrArg some (compare_lt_iff_lt.mpr hlt))
    · exact .inr (congrArg some (compare_gt_iff_gt.mpr hgt))
  · rw [compare?_of_floating hnumber (lane_of_isIntegral hu) (.inl hv), hvu,
      compare_eq_iff_eq.mpr rfl]
  · rw [compare?_of_floating hnumber (lane_of_isIntegral hw) (.inl hv), hvw,
      compare_eq_iff_eq.mpr rfl]

/-- Numbers in a sort. Integers are compared with each other exactly and with doubles after
rounding, which keeps their order; only where it makes two of them equal can a double that is
equal to both lose their order. -/
theorem order_then_number (ha : a.lane = some .double) (hb : b.lane = some .double)
    (hc : c.lane = some .double) (hclear : a.Clear b c) (hab : a.order b ≠ .gt)
    (hbc : b.order c ≠ .gt) : a.order c = (a.order b).then (b.order c) := by
  have hfa := isFloating_iff ha
  have hfb := isFloating_iff hb
  have hfc := isFloating_iff hc
  cases hai : a.dataType.isIntegral <;> cases hbi : b.dataType.isIntegral <;>
    cases hci : c.dataType.isIntegral
  case true.true.true =>
    rw [order_integers hai hbi] at hab ⊢
    rw [order_integers hbi hci] at hbc ⊢
    rw [order_integers hai hci]
    exact compare_then hab hbc
  case true.true.false =>
    have hfloat := hfc.mpr hci
    rw [order_integers hai hbi] at hab ⊢
    rw [order_rounded hb hc (.inr hfloat)] at hbc ⊢
    rw [order_rounded ha hc (.inr hfloat)]
    exact compare_then_left (rank_mono hai hbi) (rank_mono hbi hai)
      (fun ⟨hne, hca, hcb⟩ => hclear.third (.of_rounded hfloat hai hbi hne hca hcb)) hab hbc
  case false.true.true =>
    have hfloat := hfa.mpr hai
    rw [order_rounded ha hb (.inl hfloat)] at hab ⊢
    rw [order_integers hbi hci] at hbc ⊢
    rw [order_rounded ha hc (.inl hfloat)]
    exact compare_then_right (rank_mono hbi hci) (rank_mono hci hbi)
      (fun ⟨hne, hab, hac⟩ => hclear.first (.of_rounded hfloat hbi hci hne hab hac)) hab hbc
  case true.false.true =>
    have hfloat := hfb.mpr hbi
    rw [order_rounded ha hb (.inr hfloat)] at hab ⊢
    rw [order_rounded hb hc (.inl hfloat)] at hbc ⊢
    rw [order_integers hai hci]
    exact compare_then_across (rank_mono hci hai)
      (fun ⟨hne, hba, hbc⟩ => hclear.second (.of_rounded hfloat hai hci hne hba hbc)) hab hbc
  all_goals
    rw [order_rounded ha hb (by grind)] at hab ⊢
    rw [order_rounded hb hc (by grind)] at hbc ⊢
    rw [order_rounded ha hc (by grind)]
    exact compare_then hab hbc

/-- Values in a sort. A value that has no order with two others which are in order is what
blurs them; without it ties are as good as equalities. -/
theorem order_then (ha : a ≠ .null) (hb : b ≠ .null) (hc : c ≠ .null) (hclear : a.Clear b c)
    (hab : a.order b ≠ .gt) (hbc : b.order c ≠ .gt) : a.order c = (a.order b).then (b.order c) := by
  by_cases hfirst : a.lane = none ∨ a.lane ≠ b.lane
  · rw [order_of_lanes hfirst]
    by_cases hthird : a.lane = none ∨ a.lane ≠ c.lane
    · -- the first value has no order with the others
      rw [order_of_lanes hthird]
      by_contra hne
      exact hclear.first (.of_lanes ha (Ne.symm hne) hfirst hthird)
    · have hsecond : b.lane = none ∨ b.lane ≠ c.lane := by grind
      rw [order_of_lanes hsecond]
      by_contra hne
      exact hclear.second (.of_lanes hb hne (by grind) hsecond)
  · by_cases hsecond : b.lane = none ∨ b.lane ≠ c.lane
    · have hthird : a.lane = none ∨ a.lane ≠ c.lane := by grind
      rw [order_of_lanes hsecond, order_of_lanes hthird, Ordering.then_eq]
      by_contra hne
      exact hclear.third (.of_lanes hc (Ne.symm hne) (by grind) (by grind))
    · simp only [not_or, not_not] at hfirst hsecond
      obtain ⟨hnone, hab'⟩ := hfirst
      obtain ⟨-, hbc'⟩ := hsecond
      by_cases hnumber : a.lane = some .double
      · exact order_then_number hnumber (hab' ▸ hnumber) (hbc' ▸ hab' ▸ hnumber) hclear hab hbc
      · rw [order_exact hnone hab' hnumber] at hab ⊢
        rw [order_exact (hab' ▸ hnone) hbc' (hab' ▸ hnumber)] at hbc ⊢
        rw [order_exact hnone (hab'.trans hbc') hnumber]
        exact compare_then hab hbc

theorem not_blurs_of_fits {t : DataType} (ht : t.isComparable = true) (hv : v.fits t = true)
    (hu : u.fits t = true) : ¬ v.Blurs u w := by
  intro h
  have hvtype := dataType_of_fits hv h.value
  have hutype := dataType_of_fits hu h.left_ne_null
  rcases h.tied with ⟨hnone, -⟩ | ⟨hfloating, hintegral, -⟩
  · rw [compare?_eq_place h.value (hvtype ▸ ht) (hvtype.trans hutype.symm)] at hnone
    cases hnone
  · rw [hvtype] at hfloating
    rw [hutype] at hintegral
    cases t <;> simp_all [DataType.isFloating, DataType.isIntegral]

theorem clear_of_fits {t : DataType} (ht : t.isComparable = true) (ha : a.fits t = true)
    (hb : b.fits t = true) (hc : c.fits t = true) : a.Clear b c :=
  ⟨not_blurs_of_fits ht ha hb, not_blurs_of_fits ht hb ha, not_blurs_of_fits ht hc ha⟩

end Value

end ShardQuery
