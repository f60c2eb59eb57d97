import ShardQuery.Function.Registry
import ShardQuery.Proofs.Except
/-!
# Scalar functions keep to their types

A function that was resolved for some types never refuses values of these types.
What can still go wrong is arithmetic.
-/

namespace ShardQuery

/-- The faults of arithmetic. No other fault depends on the values of a row alone. -/
def EngineError.IsArithmetic (e : EngineError) : Prop := e = .divisionByZero ∨ e = .longOverflow

inductive Yields (p : α → Prop) : Except EngineError α → Prop
  | ok {a : α} : p a → Yields p (.ok a)
  | fault {e : EngineError} : e.IsArithmetic → Yields p (.error e)

theorem Yields.bind {p : α → Prop} {q : β → Prop} {x : Except EngineError α}
    {f : α → Except EngineError β} (hx : Yields p x) (hf : ∀ a, p a → Yields q (f a)) :
    Yields q (x >>= f) := by
  cases hx with
  | ok h => exact hf _ h
  | fault h => exact .fault h

theorem Yields.map {p : α → Prop} {q : β → Prop} {x : Except EngineError α} {f : α → β}
    (hx : Yields p x) (hf : ∀ a, p a → q (f a)) : Yields q (x.map f) := by
  cases hx with
  | ok h => exact .ok (hf _ h)
  | fault h => exact .fault h

-- ---------------------------------------------------------------------------
-- Values of a type
-- ---------------------------------------------------------------------------

namespace Value

theorem fits_iff {v : Value} {t : DataType} : v.fits t = true ↔ v = .null ∨ v.dataType = t := by
  cases v <;> simp [fits, isNull]

theorem fits_of_undefined {v : Value} (h : v.fits .undefined = true) (t : DataType) :
    v.fits t = true := by
  cases v <;> first | rfl | cases h

theorem isNull_iff {v : Value} : v.isNull = true ↔ v = .null := by
  cases v <;> simp [isNull]

theorem isNull_eq_false_iff {v : Value} : v.isNull = false ↔ v ≠ .null := by
  cases v <;> simp [isNull]

theorem not_null_or {v w : Value} (h : ¬ (v.isNull || w.isNull) = true) :
    v ≠ .null ∧ w ≠ .null := by
  simpa only [Bool.or_eq_true, not_or, isNull_iff] using h

theorem dataType_of_fits {v : Value} {t : DataType} (h : v.fits t = true) (hv : v ≠ .null) :
    v.dataType = t :=
  (fits_iff.mp h).resolve_left hv

theorem exists_long {v : Value} (h : v.dataType.isIntegral = true) : ∃ n, v.long? = some n := by
  cases v <;> first | exact ⟨_, rfl⟩ | cases h

theorem exists_double {v : Value} (h : v.dataType.isNumeric = true) : ∃ x, v.double? = some x := by
  cases v <;> first | exact ⟨_, rfl⟩ | cases h

theorem exists_compare {v w : Value} (hv : v ≠ .null) (hw : w ≠ .null)
    (h : v.dataType.comparableWith w.dataType = true) : ∃ order, v.compare? w = some order := by
  cases v <;> cases w <;>
    first | exact ⟨_, rfl⟩ | exact absurd rfl hv | exact absurd rfl hw | cases h

end Value

-- ---------------------------------------------------------------------------
-- Operators
-- ---------------------------------------------------------------------------

inductive Operator.Takes : Operator → List DataType → DataType → Prop
  | compare {op a b} (h : DataType.comparableWith a b = true) : Takes (.compare op) [a, b] .boolean
  | and {a b} (ha : isTruth a = true) (hb : isTruth b = true) : Takes .and [a, b] .boolean
  | or {a b} (ha : isTruth a = true) (hb : isTruth b = true) : Takes .or [a, b] .boolean
  | not {a} (ha : isTruth a = true) : Takes .not [a] .boolean
  | isNull {a} : Takes .isNull [a] .boolean
  | isNotNull {a} : Takes .isNotNull [a] .boolean
  | arithmetic {op a b} (ha : DataType.isNumeric a = true) (hb : DataType.isNumeric b = true) :
      Takes (.arithmetic op) [a, b] (if a.isIntegral ∧ b.isIntegral then .long else .double)

theorem Operator.takes_of_returnType? {op : Operator} {types : List DataType} {t : DataType}
    (h : op.returnType? types = some t) : op.Takes types t := by
  unfold returnType? at h
  split at h <;> simp only [Option.ite_none_right_eq_some, Bool.and_eq_true, Option.some.injEq,
    reduceCtorEq] at h
  · obtain ⟨hab, rfl⟩ := h
    exact .compare hab
  · obtain ⟨⟨ha, hb⟩, rfl⟩ := h
    exact .and ha hb
  · obtain ⟨⟨ha, hb⟩, rfl⟩ := h
    exact .or ha hb
  · obtain ⟨ha, rfl⟩ := h
    exact .not ha
  · obtain rfl := h
    exact .isNull
  · obtain rfl := h
    exact .isNotNull
  · obtain ⟨⟨ha, hb⟩, rfl⟩ := h
    exact .arithmetic ha hb

namespace ScalarFunction

def WellTyped (f : ScalarFunction) : Prop :=
  f.operator.Takes f.info.argumentTypes f.info.returnType

abbrev Fit (arguments : List Value) (types : List DataType) : Prop :=
  List.Forall₂ (fun v t => v.fits t = true) arguments types

theorem resolve_ok {name : String} {types : List DataType} {f : ScalarFunction}
    (h : resolve name types = .ok f) : Operator.builtin.lookup name = some f.operator ∧
      f.operator.returnType? types = some f.info.returnType ∧ f.info.argumentTypes = types := by
  unfold resolve at h
  cases ho : Operator.builtin.lookup name with
  | none => simp [ho] at h
  | some operator =>
    cases ht : operator.returnType? types with
    | none => simp [ho, ht] at h
    | some t =>
      simp only [ho, ht, Except.ok.injEq] at h
      subst h
      exact ⟨rfl, ht, rfl⟩

theorem resolve_wellTyped {name : String} {types : List DataType} {f : ScalarFunction}
    (h : resolve name types = .ok f) : f.WellTyped ∧ f.info.argumentTypes = types := by
  obtain ⟨-, ht, hargs⟩ := resolve_ok h
  rw [WellTyped, hargs]
  exact ⟨Operator.takes_of_returnType? ht, rfl⟩

variable {f : ScalarFunction} {v w : Value} {s t : DataType}

theorem truth_ok (f : ScalarFunction) (hv : v.fits t = true) (ht : Operator.isTruth t = true) :
    ∃ a, f.truth v = .ok a ∧ ofTruth a = v := by
  cases v with
  | null => exact ⟨none, rfl, rfl⟩
  | boolean b => exact ⟨some b, rfl, rfl⟩
  | _ =>
    rcases Value.fits_iff.mp hv with h | rfl
    · cases h
    · cases ht

theorem truth_yields (f : ScalarFunction) (hv : v.fits t = true) (ht : Operator.isTruth t = true) :
    Yields (fun _ => True) (f.truth v) := by
  obtain ⟨a, ha, -⟩ := f.truth_ok hv ht
  rw [ha]
  exact .ok trivial

theorem ofTruth_fits (b : Option Bool) : (ofTruth b).fits .boolean = true := by
  cases b <;> rfl

theorem connective_yields (f : ScalarFunction)
    (connective : Option Bool → Option Bool → Option Bool)
    (hv : v.fits s = true) (hw : w.fits t = true) (hs : Operator.isTruth s = true)
    (ht : Operator.isTruth t = true) :
    Yields (·.fits .boolean = true) do
      return ofTruth (connective (← f.truth v) (← f.truth w)) :=
  (f.truth_yields hv hs).bind fun a _ => (f.truth_yields hw ht).bind fun b _ =>
    .ok (ofTruth_fits (connective a b))

theorem compareValues_null (f : ScalarFunction) (op : Comparison)
    (h : (v.isNull || w.isNull) = true) : f.compareValues op v w = .ok .null := by
  rw [compareValues, if_pos h]

theorem compareValues_ok (f : ScalarFunction) (op : Comparison) (hv : v.fits s = true)
    (hw : w.fits t = true) (h : s.comparableWith t = true) :
    ∃ a, f.compareValues op v w = .ok (ofTruth a) := by
  by_cases hnull : (v.isNull || w.isNull) = true
  · exact ⟨none, f.compareValues_null op hnull⟩
  · obtain ⟨hvn, hwn⟩ := Value.not_null_or hnull
    obtain rfl := Value.dataType_of_fits hv hvn
    obtain rfl := Value.dataType_of_fits hw hwn
    obtain ⟨order, horder⟩ := Value.exists_compare hvn hwn h
    refine ⟨some (op.holds order), ?_⟩
    simp only [compareValues, hnull, horder, Bool.false_eq_true, ↓reduceIte, ofTruth]

theorem compareValues_yields (f : ScalarFunction) (op : Comparison) (hv : v.fits s = true)
    (hw : w.fits t = true) (h : s.comparableWith t = true) :
    Yields (·.fits .boolean = true) (f.compareValues op v w) := by
  obtain ⟨a, ha⟩ := f.compareValues_ok op hv hw h
  rw [ha]
  exact .ok (ofTruth_fits a)

theorem onLongs_yields (op : ArithmeticOp) (x y : Int64) :
    Yields (fun _ => True) (op.onLongs x y) := by
  unfold ArithmeticOp.onLongs
  split
  · exact .fault (.inl rfl)
  · split
    · exact .ok trivial
    · exact .fault (.inr rfl)

theorem arithmetic_yields (op : ArithmeticOp) (hv : v.fits s = true) (hw : w.fits t = true)
    (hs : s.isNumeric = true) (ht : t.isNumeric = true)
    (hf : f.info.returnType = if s.isIntegral ∧ t.isIntegral then .long else .double) :
    Yields (·.fits f.info.returnType = true) (f.arithmetic op v w) := by
  by_cases hnull : (v.isNull || w.isNull) = true
  · simp only [arithmetic, hnull, ↓reduceIte]
    exact .ok rfl
  obtain ⟨hvn, hwn⟩ := Value.not_null_or hnull
  obtain rfl := Value.dataType_of_fits hv hvn
  obtain rfl := Value.dataType_of_fits hw hwn
  -- the result type decides whether the operands are read as longs or as doubles
  by_cases hi : v.dataType.isIntegral ∧ w.dataType.isIntegral
  · rw [if_pos hi] at hf
    obtain ⟨x, hx⟩ := Value.exists_long hi.1
    obtain ⟨y, hy⟩ := Value.exists_long hi.2
    simp only [arithmetic, hnull, hf, hx, hy, Bool.false_eq_true, ↓reduceIte]
    exact (onLongs_yields op x y).map fun _ _ => rfl
  · rw [if_neg hi] at hf
    obtain ⟨x, hx⟩ := Value.exists_double hs
    obtain ⟨y, hy⟩ := Value.exists_double ht
    simp only [arithmetic, hnull, hf, hx, hy, Bool.false_eq_true, reduceCtorEq, ↓reduceIte]
    exact .ok rfl

/-- A well-typed function never refuses arguments that fit its types. -/
theorem evaluate_yields {arguments : List Value} (hf : f.WellTyped)
    (h : Fit arguments f.info.argumentTypes) :
    Yields (·.fits f.info.returnType = true) (f.evaluate arguments) := by
  obtain ⟨info, operator⟩ := f
  obtain ⟨⟨name, types⟩, returnType, kind⟩ := info
  simp only [WellTyped, FunctionInfo.argumentTypes] at hf h
  cases hf with
  | compare hab =>
    obtain _ | ⟨hv, _ | ⟨hw, _ | _⟩⟩ := h
    exact compareValues_yields _ _ hv hw hab
  | and ha hb =>
    obtain _ | ⟨hv, _ | ⟨hw, _ | _⟩⟩ := h
    exact connective_yields _ conjunction hv hw ha hb
  | or ha hb =>
    obtain _ | ⟨hv, _ | ⟨hw, _ | _⟩⟩ := h
    exact connective_yields _ disjunction hv hw ha hb
  | not ha =>
    obtain _ | ⟨hv, _ | _⟩ := h
    exact (truth_yields _ hv ha).bind fun b _ => .ok (ofTruth_fits (b.map Bool.not))
  | isNull =>
    obtain _ | ⟨hv, _ | _⟩ := h
    exact .ok rfl
  | isNotNull =>
    obtain _ | ⟨hv, _ | _⟩ := h
    exact .ok rfl
  | arithmetic ha hb =>
    obtain _ | ⟨hv, _ | ⟨hw, _ | _⟩⟩ := h
    exact arithmetic_yields _ hv hw ha hb rfl

end ScalarFunction

end ShardQuery
