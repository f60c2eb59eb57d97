import ShardQuery.Proofs.Aggregate.Amounts
import ShardQuery.Proofs.Expression.Typing
/-!
# Arithmetic on integers

Trees of sums, differences, products, quotients and remainders of integers of any width,
next to the same calculation without bounds. Evaluation never wraps: it is exact or it
fails. It fails where a divisor is zero and where a result is no long, and also for one
remainder that is a long, the one of the least long by minus one.
-/

namespace ShardQuery

-- ---------------------------------------------------------------------------
-- One operation
-- ---------------------------------------------------------------------------

section Division

variable {a b : Int}

/-- Halves of longs are longs, so only a division by one or minus one can leave them. -/
theorem isLong_tdiv_iff (ha : IsLong a) (hb : b ≠ 0) :
    IsLong (a.tdiv b) ↔ ¬ (a = -2 ^ 63 ∧ b = -1) := by
  obtain ⟨hlow, hhigh⟩ := ha
  by_cases hone : b.natAbs = 1
  · rcases Int.natAbs_eq_iff.mp hone with rfl | rfl
    · rw [Nat.cast_one, Int.tdiv_one]
      exact iff_of_true ⟨hlow, hhigh⟩ (by omega)
    · rw [Nat.cast_one, Int.tdiv_neg, Int.tdiv_one, IsLong]
      omega
  · have hhalf : (a.tdiv b).natAbs ≤ a.natAbs / 2 := by
      rw [Int.natAbs_tdiv]
      exact Nat.div_le_div_left (by omega) (by decide)
    exact iff_of_true ⟨by omega, by omega⟩ (by omega)

end Division

namespace ArithmeticOp

/-- The result without bounds. Quotients are truncated, and remainders have the sign of the
dividend. -/
def onIntegers (op : ArithmeticOp) (a b : Int) : Int :=
  match op with
  | add => a + b
  | subtract => a - b
  | multiply => a * b
  | divide => a.tdiv b
  | modulus => a.tmod b

def ByZero (op : ArithmeticOp) (_ b : Int) : Prop := (op = divide ∨ op = modulus) ∧ b = 0

def Exceeds (op : ArithmeticOp) (a b : Int) : Prop := ¬ IsLong (op.onIntegers a b)

/-- A remainder that is zero, while the quotient is no long. -/
def IsLeastRemainder (op : ArithmeticOp) (a b : Int) : Prop :=
  op = modulus ∧ a = -2 ^ 63 ∧ b = -1

instance (op : ArithmeticOp) (a b : Int) : Decidable (op.ByZero a b) :=
  inferInstanceAs (Decidable (_ ∧ _))

instance (op : ArithmeticOp) (a b : Int) : Decidable (op.Exceeds a b) :=
  inferInstanceAs (Decidable (¬ _))

instance (op : ArithmeticOp) (a b : Int) : Decidable (op.IsLeastRemainder a b) :=
  inferInstanceAs (Decidable (_ ∧ _))

variable {op : ArithmeticOp} {x y : Int64}

theorem onLongs_byZero (h : op.ByZero x.toInt y.toInt) : op.onLongs x y = .error .divisionByZero :=
  if_pos ⟨h.1, Int64.toInt_inj.mp h.2⟩

theorem onLongs_of_not_byZero (h : ¬ op.ByZero x.toInt y.toInt) :
    op.onLongs x y = match op.onLongs? x y with
      | some z => .ok z
      | none => .error .longOverflow :=
  if_neg fun hzero => h ⟨hzero.1, congrArg Int64.toInt hzero.2⟩

theorem onLongs?_eq (h : ¬ op.ByZero x.toInt y.toInt)
    (hleast : ¬ op.IsLeastRemainder x.toInt y.toInt) :
    op.onLongs? x y = toLong? (op.onIntegers x.toInt y.toInt) := by
  cases op with
  | modulus =>
    have hy : y.toInt ≠ 0 := fun hy => h ⟨.inr rfl, hy⟩
    have hquotient := (isLong_tdiv_iff (isLong_toInt x) hy).mpr fun hxy => hleast ⟨rfl, hxy⟩
    rw [onLongs?, toLong?_of_isLong hquotient]
    rfl
  | _ => rfl

theorem onLongs_ok (hzero : ¬ op.ByZero x.toInt y.toInt) (hexceeds : ¬ op.Exceeds x.toInt y.toInt)
    (hleast : ¬ op.IsLeastRemainder x.toInt y.toInt) :
    op.onLongs x y = .ok (Int64.ofInt (op.onIntegers x.toInt y.toInt)) := by
  rw [onLongs_of_not_byZero hzero, onLongs?_eq hzero hleast,
    toLong?_of_isLong (not_not.mp hexceeds)]

theorem onLongs_overflow (hzero : ¬ op.ByZero x.toInt y.toInt)
    (h : op.Exceeds x.toInt y.toInt ∨ op.IsLeastRemainder x.toInt y.toInt) :
    op.onLongs x y = .error .longOverflow := by
  rw [onLongs_of_not_byZero hzero]
  by_cases hleast : op.IsLeastRemainder x.toInt y.toInt
  · obtain ⟨rfl, hx, hy⟩ := hleast
    have hquotient : ¬ IsLong (x.toInt.tdiv y.toInt) := by
      rw [hx, hy]
      decide
    rw [onLongs?, toLong?_of_not_isLong hquotient]
    rfl
  · rw [onLongs?_eq hzero hleast, toLong?_of_not_isLong (h.resolve_right hleast)]

end ArithmeticOp

-- ---------------------------------------------------------------------------
-- Calculations
-- ---------------------------------------------------------------------------

/-- A tree of operations over literals and columns. Each operation is called by what a plan says
about it. -/
inductive Calculation where
  | literal (value : Value) (type : DataType)
  | column (index : UInt32) (type : DataType)
  | apply (op : ArithmeticOp) (info : FunctionInfo) (left right : Calculation)

namespace Calculation

open ArithmeticOp

def symbol : Calculation → Symbol
  | literal value type => .literal value type
  | column index type => .reference index type
  | apply _ info left right => .call info [left.symbol, right.symbol]

/-- Literals and columns are integers, of any width, and the functions of the calls are those of the
operations, in any case of their letters. -/
def IsIntegral : Calculation → Prop
  | literal value _ => value.dataType.isIntegral = true
  | column _ type => type.isIntegral = true
  | apply op info left right =>
    Operator.builtin.lookup (Registry.fold info.name) = some (.arithmetic op) ∧
      left.IsIntegral ∧ right.IsIntegral

def Reads (row : Row) : Calculation → Prop
  | literal .. => True
  | column index _ => ∃ v, row[index.toNat]? = some v ∧ v.dataType.isIntegral = true
  | apply _ _ left right => left.Reads row ∧ right.Reads row

def value (row : Row) : Calculation → Int
  | literal value _ => value.amount
  | column index _ => (row[index.toNat]?.getD .null).amount
  | apply op _ left right => op.onIntegers (left.value row) (right.value row)

/-- Some operation of the calculation is of this kind for its exact operands. -/
def Anywhere (row : Row) (p : ArithmeticOp → Int → Int → Prop) : Calculation → Prop
  | literal .. => False
  | column .. => False
  | apply op _ left right =>
    left.Anywhere row p ∨ right.Anywhere row p ∨ p op (left.value row) (right.value row)

instance decidableAnywhere (row : Row) (p : ArithmeticOp → Int → Int → Prop)
    [∀ op a b, Decidable (p op a b)] : (c : Calculation) → Decidable (c.Anywhere row p)
  | literal .. => inferInstanceAs (Decidable False)
  | column .. => inferInstanceAs (Decidable False)
  | apply op _ left right =>
    have := decidableAnywhere row p left
    have := decidableAnywhere row p right
    inferInstanceAs (Decidable (_ ∨ _ ∨ p op (left.value row) (right.value row)))

def Fails (row : Row) (c : Calculation) : Prop :=
  c.Anywhere row ByZero ∨ c.Anywhere row Exceeds ∨ c.Anywhere row IsLeastRemainder

instance (row : Row) (c : Calculation) : Decidable (c.Fails row) :=
  inferInstanceAs (Decidable (_ ∨ _ ∨ _))

/-- The value that the calculation has as a result: that of an operation is a long, other values
keep their widths. -/
def Makes : Calculation → Value → Int64 → Prop
  | apply .., v, n => v = .long n
  | _, v, n => v.long? = some n

inductive Settles (row : Row) (c : Calculation) : Except EngineError Value → Prop
  | exact {v n} : c.Makes v n → n.toInt = c.value row → ¬ c.Fails row → Settles row c (.ok v)
  | byZero : c.Anywhere row ByZero → Settles row c (.error .divisionByZero)
  | overflow : c.Anywhere row Exceeds ∨ c.Anywhere row IsLeastRemainder →
      Settles row c (.error .longOverflow)

variable {row : Row} {c left right : Calculation} {op : ArithmeticOp} {info : FunctionInfo}

theorem Makes.long?_eq {v : Value} {n : Int64} (h : c.Makes v n) : v.long? = some n := by
  cases c with
  | apply =>
    obtain rfl : v = .long n := h
    rfl
  | _ => exact h

theorem eq_of_isIntegral {actual expected : DataType} (h : actual.isIntegral = true)
    (hcheck : actual = expected ∨ actual = .undefined) : actual = expected := by
  refine hcheck.resolve_right ?_
  rintro rfl
  cases h

theorem compile_operands {e : Expression}
    (h : Expression.compile .builtin (apply op info left right).symbol = .ok e) :
    ∃ f el er, e = .call f [el, er] ∧ Expression.compile .builtin left.symbol = .ok el ∧
      Expression.compile .builtin right.symbol = .ok er ∧
      Registry.builtin.verifyScalar info = .ok f ∧ ∃ a b, info.argumentTypes = [a, b] ∧
        Expression.checkArguments info [left.symbol, right.symbol] [a, b] = .ok () := by
  obtain ⟨f, es, rfl, hf, hes, hcheck, hlength⟩ := Expression.compile_call h
  obtain ⟨el, hel, hes⟩ := bind_eq_ok.mp hes
  obtain ⟨rest, hrest, hes⟩ := bind_eq_ok.mp hes
  obtain ⟨er, her, hrest⟩ := bind_eq_ok.mp hrest
  cases hrest
  cases hes
  obtain ⟨a, b, hab⟩ := List.length_eq_two.mp hlength
  exact ⟨f, el, er, rfl, hel, her, hf, a, b, hab, hab ▸ hcheck⟩

theorem verified_operation {f : ScalarFunction} {a b : DataType}
    (hop : Operator.builtin.lookup (Registry.fold info.name) = some (.arithmetic op))
    (hf : Registry.builtin.verifyScalar info = .ok f) (htypes : info.argumentTypes = [a, b])
    (ha : a.isIntegral = true) (hb : b.isIntegral = true) :
    f.operator = .arithmetic op ∧ f.info.argumentTypes.length = 2 ∧ f.info.returnType = .long ∧
      info.returnType = .long := by
  obtain ⟨hresolve, hreturn⟩ := Expression.verifyScalar_resolve hf
  obtain ⟨hlookup, htype, harguments⟩ := ScalarFunction.resolve_ok hresolve
  have hoperator : f.operator = .arithmetic op := Option.some.inj (hlookup.symm.trans hop)
  have hlong : f.info.returnType = .long := by
    rw [hoperator, htypes] at htype
    simpa [Operator.returnType?, DataType.isNumeric, ha, hb] using htype.symm
  exact ⟨hoperator, by rw [harguments, htypes]; rfl, hlong, hreturn ▸ hlong⟩

theorem compile_apply {e : Expression}
    (hop : Operator.builtin.lookup (Registry.fold info.name) = some (.arithmetic op))
    (hl : ∀ {el}, Expression.compile .builtin left.symbol = .ok el →
      left.symbol.valueType.isIntegral = true)
    (hr : ∀ {er}, Expression.compile .builtin right.symbol = .ok er →
      right.symbol.valueType.isIntegral = true)
    (h : Expression.compile .builtin (apply op info left right).symbol = .ok e) :
    ∃ f el er, e = .call f [el, er] ∧ Expression.compile .builtin left.symbol = .ok el ∧
      Expression.compile .builtin right.symbol = .ok er ∧ f.operator = .arithmetic op ∧
      f.info.argumentTypes.length = 2 ∧ f.info.returnType = .long ∧ info.returnType = .long := by
  obtain ⟨f, el, er, rfl, hel, her, hf, a, b, htypes, hcheck⟩ := compile_operands h
  obtain ⟨ha, hcheck⟩ := Expression.checkArguments_cons hcheck
  obtain ⟨hb, -⟩ := Expression.checkArguments_cons hcheck
  obtain rfl := eq_of_isIntegral (hl hel) ha
  obtain rfl := eq_of_isIntegral (hr her) hb
  exact ⟨f, el, er, rfl, hel, her, verified_operation hop hf htypes (hl hel) (hr her)⟩

theorem valueType_isIntegral {e : Expression} (hc : c.IsIntegral)
    (h : Expression.compile .builtin c.symbol = .ok e) :
    c.symbol.valueType.isIntegral = true := by
  induction c generalizing e with
  | literal value type =>
    rw [symbol, Expression.compile] at h
    split at h
    · rename_i hfits
      have hnull : value ≠ .null := by
        rintro rfl
        cases hc
      rwa [symbol, Symbol.valueType, ← Value.dataType_of_fits hfits hnull]
    · cases h
  | column index type => exact hc
  | apply op info left right ihl ihr =>
    obtain ⟨hop, hl, hr⟩ := hc
    obtain ⟨_, _, _, -, -, -, -, -, -, hreturn⟩ := compile_apply hop (ihl hl) (ihr hr) h
    rw [symbol, Symbol.valueType, hreturn]
    rfl

-- ---------------------------------------------------------------------------
-- Evaluation
-- ---------------------------------------------------------------------------

theorem evaluate_operands (f : ScalarFunction) (el er : Expression) :
    (Expression.call f [el, er]).evaluate row = (do
      let v ← el.evaluate row
      let w ← er.evaluate row
      f.evaluate [v, w]) := by
  simp only [Expression.evaluate, Expression.evaluateAll]
  rcases el.evaluate row with e | v
  · rfl
  · rcases er.evaluate row with e | w <;> rfl

theorem evaluate_call {f : ScalarFunction} {el er : Expression} {v w : Value} {x y : Int64}
    (hoperator : f.operator = .arithmetic op) (hlength : f.info.argumentTypes.length = 2)
    (hreturn : f.info.returnType = .long) (hel : el.evaluate row = .ok v)
    (her : er.evaluate row = .ok w) (hv : v.long? = some x) (hw : w.long? = some y) :
    (Expression.call f [el, er]).evaluate row = (op.onLongs x y).map .long := by
  have hvnull : v.isNull = false := by
    cases v <;> first | rfl | cases hv
  have hwnull : w.isNull = false := by
    cases w <;> first | rfl | cases hw
  simp [evaluate_operands, hel, her, ScalarFunction.evaluate, hoperator, hlength,
    ScalarFunction.arithmetic, hvnull, hwnull, hreturn, hv, hw]

theorem amount_of_long? {v : Value} {n : Int64} (h : v.long? = some n) : v.amount = n.toInt := by
  rw [Value.amount, Value.integer?, h]
  rfl

theorem settles_leaf {v : Value} (h : v.dataType.isIntegral = true)
    (hvalue : v.amount = c.value row) (hmakes : ∀ n, v.long? = some n → c.Makes v n)
    (hfails : ¬ c.Fails row) : c.Settles row (.ok v) := by
  obtain ⟨n, hn⟩ := Value.exists_long h
  exact .exact (hmakes n hn) ((amount_of_long? hn).symm.trans hvalue) hfails

theorem settles_apply {x y : Int64} (hx : x.toInt = left.value row)
    (hy : y.toInt = right.value row) (hl : ¬ left.Fails row) (hr : ¬ right.Fails row) :
    (apply op info left right).Settles row ((op.onLongs x y).map .long) := by
  by_cases hzero : op.ByZero x.toInt y.toInt
  · rw [onLongs_byZero hzero]
    rw [hx, hy] at hzero
    exact .byZero (.inr (.inr hzero))
  by_cases hover : op.Exceeds x.toInt y.toInt ∨ op.IsLeastRemainder x.toInt y.toInt
  · rw [onLongs_overflow hzero hover]
    rw [hx, hy] at hover
    exact .overflow (hover.imp (fun h => .inr (.inr h)) fun h => .inr (.inr h))
  · obtain ⟨hexceeds, hleast⟩ := not_or.mp hover
    rw [onLongs_ok hzero hexceeds hleast]
    have hlong : IsLong (op.onIntegers x.toInt y.toInt) := not_not.mp hexceeds
    refine .exact (n := Int64.ofInt (op.onIntegers x.toInt y.toInt)) rfl ?_ ?_
    · rw [hlong.toInt_ofInt, hx, hy]
      rfl
    · rw [hx, hy] at hzero hexceeds hleast
      simp only [Fails, Anywhere] at hl hr ⊢
      tauto

/-- Every calculation is settled by its evaluation. -/
theorem evaluate_settles {e : Expression} (hc : c.IsIntegral) (hrow : c.Reads row)
    (h : Expression.compile .builtin c.symbol = .ok e) : c.Settles row (e.evaluate row) := by
  induction c generalizing e with
  | literal value type =>
    rw [symbol, Expression.compile] at h
    split at h
    · cases h
      exact settles_leaf hc rfl (fun _ => id) (by simp [Fails, Anywhere])
    · cases h
  | column index type =>
    rw [symbol, Expression.compile] at h
    cases h
    obtain ⟨v, hv, hintegral⟩ := hrow
    rw [Expression.evaluate, hv]
    exact settles_leaf hintegral (by rw [value, hv]; rfl) (fun _ => id) (by simp [Fails, Anywhere])
  | apply op info left right ihl ihr =>
    obtain ⟨hop, hl, hr⟩ := hc
    obtain ⟨f, el, er, rfl, hel, her, hoperator, hlength, hreturn, -⟩ :=
      compile_apply hop (valueType_isIntegral hl) (valueType_isIntegral hr) h
    have hleft := ihl hl hrow.1 hel
    have hright := ihr hr hrow.2 her
    cases hresult : el.evaluate row with
    | error e =>
      rw [evaluate_operands, hresult]
      rw [hresult] at hleft
      cases hleft with
      | byZero h => exact .byZero (.inl h)
      | overflow h => exact .overflow (h.imp .inl .inl)
    | ok v =>
      rw [hresult] at hleft
      cases hleft with
      | exact hv hx hlfails =>
        cases hother : er.evaluate row with
        | error e =>
          rw [evaluate_operands, hresult, hother]
          rw [hother] at hright
          cases hright with
          | byZero h => exact .byZero (.inr (.inl h))
          | overflow h => exact .overflow (h.imp (.inr <| .inl ·) (.inr <| .inl ·))
        | ok w =>
          rw [hother] at hright
          cases hright with
          | exact hw hy hrfails =>
            rw [evaluate_call hoperator hlength hreturn hresult hother hv.long?_eq hw.long?_eq]
            exact settles_apply hx hy hlfails hrfails

/-- An operation over integers of any width comes to its exact result, as a long, unless somewhere
in its tree a divisor is zero, a result is no long, or the least long is divided by minus one for
the remainder. In these cases it fails, and the error tells a division by zero from the others. -/
theorem evaluates_exactly_iff {e : Expression} (hc : (apply op info left right).IsIntegral)
    (hrow : (apply op info left right).Reads row)
    (h : Expression.compile .builtin (apply op info left right).symbol = .ok e) :
    let c := apply op info left right
    (¬ c.Fails row → ∃ n : Int64, e.evaluate row = .ok (.long n) ∧ n.toInt = c.value row) ∧
      (c.Fails row →
        e.evaluate row = .error .divisionByZero ∧ c.Anywhere row ByZero ∨
        e.evaluate row = .error .longOverflow ∧
          (c.Anywhere row Exceeds ∨ c.Anywhere row IsLeastRemainder)) := by
  have hsettles := evaluate_settles hc hrow h
  generalize e.evaluate row = result at hsettles
  cases hsettles with
  | exact hv hn hfails =>
    refine ⟨fun _ => ⟨_, ?_, hn⟩, fun h => absurd h hfails⟩
    exact congrArg Except.ok hv
  | byZero hzero => exact ⟨fun h => absurd (.inl hzero) h, fun _ => .inl ⟨rfl, hzero⟩⟩
  | overflow hover => exact ⟨fun h => absurd (.inr hover) h, fun _ => .inr ⟨rfl, hover⟩⟩

theorem evaluates_exactly_iff_widths :
    let c : Calculation := .apply .modulus ⟨⟨"Modulus", [.long, .short]⟩, .long, .scalar⟩
      (.apply .multiply ⟨⟨"multiply", [.integer, .byte]⟩, .long, .scalar⟩
        (.column 0 .integer) (.literal (.byte (-3)) .byte))
      (.column 1 .short)
    let row : Row := [.integer 2147483647, .short 1000]
    c.IsIntegral ∧ c.Reads row ∧ ∃ e, Expression.compile .builtin c.symbol = .ok e ∧
      ¬ c.Fails row ∧ e.evaluate row = .ok (.long (-941)) := by
  intro c row
  have hfold : Registry.fold "Modulus" = "modulus" ∧ Registry.fold "multiply" = "multiply" := by
    decide +kernel
  have hc : c.IsIntegral := by
    refine ⟨?_, ⟨?_, rfl, rfl⟩, rfl⟩
    · simp only [FunctionInfo.name, hfold]
      rfl
    · simp only [FunctionInfo.name, hfold]
      rfl
  have hrow : c.Reads row := ⟨⟨⟨_, rfl, rfl⟩, trivial⟩, ⟨_, rfl, rfl⟩⟩
  let product : ScalarFunction :=
    ⟨⟨⟨"multiply", [.integer, .byte]⟩, .long, .scalar⟩, .arithmetic .multiply⟩
  let remainder : ScalarFunction :=
    ⟨⟨⟨"modulus", [.long, .short]⟩, .long, .scalar⟩, .arithmetic .modulus⟩
  have hcompile : Expression.compile .builtin c.symbol = .ok (.call remainder
      [.call product [.input 0, .literal (.byte (-3))], .input 1]) := by
    simp only [c, symbol, Expression.compile, Expression.compileAll, Registry.verifyScalar,
      Registry.resolveScalar, hfold]
    rfl
  have hfails : ¬ c.Fails row := by decide +kernel
  obtain ⟨n, hn, hvalue⟩ := (evaluates_exactly_iff hc hrow hcompile).1 hfails
  have hexact : c.value row = (-941 : Int64).toInt := by decide +kernel
  rw [hexact, Int64.toInt_inj] at hvalue
  exact ⟨hc, hrow, _, hcompile, hfails, hvalue ▸ hn⟩

/-- The remainder of the least long by minus one is zero, but it is reported as an overflow. -/
theorem least_remainder_refused :
    let c : Calculation := .apply .modulus ⟨⟨"modulus", [.long, .long]⟩, .long, .scalar⟩
      (.column 0 .long) (.column 1 .long)
    let row : Row := [.long (-9223372036854775808), .long (-1)]
    c.IsIntegral ∧ c.Reads row ∧ c.value row = 0 ∧
      ¬ c.Anywhere row ByZero ∧ ¬ c.Anywhere row Exceeds ∧
      ∃ e, Expression.compile .builtin c.symbol = .ok e ∧
        e.evaluate row = .error .longOverflow := by
  intro c row
  have hfold : Registry.fold "modulus" = "modulus" := by decide +kernel
  have hc : c.IsIntegral := by
    refine ⟨?_, rfl, rfl⟩
    simp only [FunctionInfo.name, hfold]
    rfl
  let remainder : ScalarFunction :=
    ⟨⟨⟨"modulus", [.long, .long]⟩, .long, .scalar⟩, .arithmetic .modulus⟩
  have hcompile : Expression.compile .builtin c.symbol =
      .ok (.call remainder [.input 0, .input 1]) := by
    simp only [c, symbol, Expression.compile, Expression.compileAll, Registry.verifyScalar,
      Registry.resolveScalar, hfold]
    rfl
  exact ⟨hc, ⟨⟨_, rfl, rfl⟩, ⟨_, rfl, rfl⟩⟩, by decide +kernel, by decide +kernel,
    by decide +kernel, _, hcompile, by rfl⟩

end Calculation

end ShardQuery
