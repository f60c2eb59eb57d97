import ShardQuery.Execution.Expression
import ShardQuery.Proofs.Function.Scalar
/-!
# Typed expressions

What is checked when a symbol is compiled is enough to evaluate it over every row
that keeps to the types of the symbol.
-/

namespace ShardQuery

mutual
def Symbol.references : Symbol → List (UInt32 × DataType)
  | literal .. => []
  | reference index type => [(index, type)]
  | call _ arguments => referencesOf arguments

def Symbol.referencesOf : List Symbol → List (UInt32 × DataType)
  | [] => []
  | symbol :: rest => symbol.references ++ referencesOf rest
end

def Row.Suits (row : Row) (references : List (UInt32 × DataType)) : Prop :=
  ∀ r ∈ references, ∃ v, row[r.1.toNat]? = some v ∧ v.fits r.2 = true

theorem Row.Suits.left {row : Row} (h : row.Suits (a ++ b)) : row.Suits a :=
  fun r hr => h r (List.mem_append_left _ hr)

theorem Row.Suits.right {row : Row} (h : row.Suits (a ++ b)) : row.Suits b :=
  fun r hr => h r (List.mem_append_right _ hr)

namespace Expression

-- ---------------------------------------------------------------------------
-- The judgement
-- ---------------------------------------------------------------------------

mutual
/-- The expression stands for values of the type as far as the row is concerned. -/
inductive Typed (row : Row) : Expression → DataType → Prop
  | literal {v t} : Value.fits v t = true → Typed row (.literal v) t
  | input {index v t} : row[index]? = some v → Value.fits v t = true → Typed row (.input index) t
  | call {f arguments} : ScalarFunction.WellTyped f →
      ArgumentsTyped row arguments f.info.argumentTypes →
      Typed row (.call f arguments) f.info.returnType

/-- Arguments for parameters of these types. An argument without a type is always null. -/
inductive ArgumentsTyped (row : Row) : List Expression → List DataType → Prop
  | nil : ArgumentsTyped row [] []
  | cons {e rest s t types} : Typed row e s → s = t ∨ s = .undefined →
      ArgumentsTyped row rest types → ArgumentsTyped row (e :: rest) (t :: types)
end

variable {row : Row}

mutual
theorem Typed.yields : ∀ {e : Expression} {t : DataType}, Typed row e t →
    Yields (·.fits t = true) (e.evaluate row)
  | .literal _, _, .literal hv => .ok hv
  | .input _, _, .input hi hv => by
    simp only [evaluate, hi]
    exact .ok hv
  | .call _ _, _, .call hf ha => ha.yields.bind fun _ hvs => ScalarFunction.evaluate_yields hf hvs

theorem ArgumentsTyped.yields : ∀ {es : List Expression} {types : List DataType},
    ArgumentsTyped row es types →
    Yields (ScalarFunction.Fit · types) (evaluateAll row es)
  | [], _, .nil => .ok .nil
  | e :: rest, _ :: types, .cons (s := s) he hst hrest => by
    refine he.yields.bind fun v hv => hrest.yields.bind fun vs hvs => .ok (.cons ?_ hvs)
    rcases hst with rfl | rfl
    · exact hv
    · exact Value.fits_of_undefined hv _
end

-- ---------------------------------------------------------------------------
-- Compiling
-- ---------------------------------------------------------------------------

theorem resolver_builtin {name : String} {resolver : ScalarResolver}
    (h : Registry.builtin.scalars.lookup name = some resolver) :
    resolver = ScalarFunction.resolve := by
  obtain ⟨_, _, hl, -⟩ := List.lookup_eq_some_iff.mp h
  have hm : (name, resolver) ∈ Registry.builtin.scalars := by
    rw [hl]
    simp
  obtain ⟨_, -, he⟩ := List.mem_map.mp hm
  exact (Prod.mk.inj he).2.symm

/-- A call that the built-in registry accepts is resolved by its name in lower case. -/
theorem verifyScalar_resolve {info : FunctionInfo} {f : ScalarFunction}
    (h : Registry.builtin.verifyScalar info = .ok f) :
    ScalarFunction.resolve (Registry.fold info.name) info.argumentTypes = .ok f ∧
      f.info.returnType = info.returnType := by
  obtain ⟨-, -, h⟩ := bind_eq_ok.mp h
  obtain ⟨g, hg, h⟩ := bind_eq_ok.mp h
  obtain ⟨_, ht, h⟩ := bind_eq_ok.mp h
  cases h
  constructor
  · simp only [Registry.resolveScalar] at hg
    split at hg
    · rename_i resolver hr
      rw [resolver_builtin hr] at hg
      exact hg
    · cases hg
  · unfold Registry.expectReturnType at ht
    split at ht
    · rename_i hreturn
      exact hreturn.symm
    · cases ht

theorem verifyScalar_wellTyped {info : FunctionInfo} {f : ScalarFunction}
    (h : Registry.builtin.verifyScalar info = .ok f) :
    f.WellTyped ∧ f.info.argumentTypes = info.argumentTypes ∧
      f.info.returnType = info.returnType := by
  obtain ⟨hresolve, hreturn⟩ := verifyScalar_resolve h
  obtain ⟨hf, hargs⟩ := ScalarFunction.resolve_wellTyped hresolve
  exact ⟨hf, hargs, hreturn⟩

theorem checkArguments_cons {info : FunctionInfo} {argument : Symbol} {rest : List Symbol}
    {expected : DataType} {types : List DataType}
    (h : checkArguments info (argument :: rest) (expected :: types) = .ok ()) :
    (argument.valueType = expected ∨ argument.valueType = .undefined) ∧
      checkArguments info rest types = .ok () := by
  simp only [checkArguments] at h
  split at h
  · cases h
  · rename_i hn
    exact ⟨by tauto, h⟩

theorem compile_call {info : FunctionInfo} {arguments : List Symbol} {e : Expression}
    (h : compile .builtin (.call info arguments) = .ok e) :
    ∃ f es, e = .call f es ∧ Registry.builtin.verifyScalar info = .ok f ∧
      compileAll .builtin arguments = .ok es ∧
      checkArguments info arguments info.argumentTypes = .ok () ∧
      info.argumentTypes.length = arguments.length := by
  rw [compile] at h
  by_cases hkind : info.kind = .aggregate
  · simp [hkind] at h
  by_cases hlength : info.argumentTypes.length = arguments.length
  · simp only [hkind, hlength, ↓reduceIte, ne_eq, not_true_eq_false, pure_eq_ok] at h
    obtain ⟨_, ha, h⟩ := bind_eq_ok.mp h
    obtain ⟨f, hf, h⟩ := bind_eq_ok.mp h
    obtain ⟨es, hes, h⟩ := bind_eq_ok.mp h
    cases h
    exact ⟨f, es, rfl, hf, hes, ha, hlength⟩
  · simp [hkind, hlength] at h

mutual
theorem compile_typed : ∀ {symbol : Symbol} {e : Expression},
    compile .builtin symbol = .ok e → row.Suits symbol.references → Typed row e symbol.valueType
  | .literal value type, e, hc, _ => by
    simp only [compile] at hc
    split at hc
    · rename_i hv
      cases hc
      exact .literal hv
    · cases hc
  | .reference index type, e, hc, hrow => by
    simp only [compile] at hc
    cases hc
    obtain ⟨v, hi, hv⟩ := hrow (index, type) (by simp [Symbol.references])
    exact .input hi hv
  | .call info arguments, e, hc, hrow => by
    obtain ⟨f, es, rfl, hf, hes, ha, hlength⟩ := compile_call hc
    obtain ⟨hwell, hargs, hreturn⟩ := verifyScalar_wellTyped hf
    rw [Symbol.valueType, ← hreturn]
    exact .call hwell (hargs ▸ compileAll_typed hes ha hlength hrow)

theorem compileAll_typed : ∀ {symbols : List Symbol} {types : List DataType}
    {es : List Expression} {info : FunctionInfo},
    compileAll .builtin symbols = .ok es → checkArguments info symbols types = .ok () →
    types.length = symbols.length → row.Suits (Symbol.referencesOf symbols) →
    ArgumentsTyped row es types
  | [], [], es, _, hc, _, _, _ => by
    cases hc
    exact .nil
  | symbol :: rest, t :: types, es, _, hc, ha, hl, hrow => by
    obtain ⟨e, he, hc⟩ := bind_eq_ok.mp hc
    obtain ⟨others, ho, hc⟩ := bind_eq_ok.mp hc
    cases hc
    obtain ⟨ht, ha⟩ := checkArguments_cons ha
    exact .cons (compile_typed he hrow.left) ht
      (compileAll_typed ho ha (Nat.succ.inj hl) hrow.right)
end

/-- A compiled expression has a value of its type for every row that suits the symbol, unless its
arithmetic fails. -/
theorem compile_sound {symbol : Symbol} {e : Expression} (hc : compile .builtin symbol = .ok e)
    (hrow : row.Suits symbol.references) :
    (∃ v, e.evaluate row = .ok v ∧ v.fits symbol.valueType = true) ∨
      e.evaluate row = .error .divisionByZero ∨ e.evaluate row = .error .longOverflow := by
  have hyields := (compile_typed hc hrow).yields
  cases hr : e.evaluate row with
  | ok v =>
    rw [hr] at hyields
    cases hyields with
    | ok hv => exact .inl ⟨v, rfl, hv⟩
  | error fault =>
    rw [hr] at hyields
    cases hyields with
    | fault hf => exact .inr (hf.imp (congrArg _) (congrArg _))

theorem compile_sound_or :
    let symbol : Symbol := .call ⟨⟨"OR", [.boolean, .boolean]⟩, .boolean, .scalar⟩
      [.call ⟨⟨"Gt", [.long, .float]⟩, .boolean, .scalar⟩
        [.reference 0 .long, .literal .null .undefined], .reference 1 .boolean]
    let row : Row := [.long 5, .null]
    ∃ e, compile .builtin symbol = .ok e ∧ row.Suits symbol.references ∧
      ((∃ v, e.evaluate row = .ok v ∧ v.fits symbol.valueType = true) ∨
        e.evaluate row = .error .divisionByZero ∨ e.evaluate row = .error .longOverflow) := by
  intro symbol row
  let gt : ScalarFunction := ⟨⟨⟨"gt", [.long, .float]⟩, .boolean, .scalar⟩, .compare .gt⟩
  let or : ScalarFunction := ⟨⟨⟨"or", [.boolean, .boolean]⟩, .boolean, .scalar⟩, .or⟩
  have hfold : Registry.fold "OR" = "or" ∧ Registry.fold "Gt" = "gt" := by decide +kernel
  have hc : compile .builtin symbol =
      .ok (.call or [.call gt [.input 0, .literal .null], .input 1]) := by
    simp only [symbol, compile, compileAll, Registry.verifyScalar, Registry.resolveScalar, hfold]
    rfl
  have hrow : row.Suits symbol.references := by
    intro r hr
    have hcases : r = (0, .long) ∨ r = (1, .boolean) := by
      simpa [symbol, Symbol.references, Symbol.referencesOf] using hr
    rcases hcases with rfl | rfl
    · exact ⟨.long 5, rfl, rfl⟩
    · exact ⟨.null, rfl, rfl⟩
  exact ⟨_, hc, hrow, compile_sound hc hrow⟩

end Expression

end ShardQuery
