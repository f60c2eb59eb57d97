import Mathlib.Data.Fintype.Option
import ShardQuery.Proofs.Expression.Typing
/-!
# Nulls as values that are not known

Connectives and comparisons decide about a row with nulls only what they would decide
with any values in the place of the nulls.
-/

namespace ShardQuery

/-- The second value stands in the place of the first: it is the same, or the first is null. -/
def Value.RefinedBy (v w : Value) : Prop := v = .null ∨ v = w

abbrev Row.RefinedBy (row other : Row) : Prop := List.Forall₂ Value.RefinedBy row other

theorem Row.RefinedBy.at {row other : Row} (h : row.RefinedBy other) {i : Nat} {v w : Value}
    (hv : row[i]? = some v) (hw : other[i]? = some w) : v.RefinedBy w := by
  obtain ⟨hi, rfl⟩ := List.getElem?_eq_some_iff.mp hv
  obtain ⟨hj, rfl⟩ := List.getElem?_eq_some_iff.mp hw
  exact h.get hi hj

inductive Both (r : α → β → Prop) : Except EngineError α → Except EngineError β → Prop
  | ok {a : α} {b : β} : r a b → Both r (.ok a) (.ok b)

namespace Both

variable {r : α → β → Prop} {x : Except EngineError α} {y : Except EngineError β}

theorem bind {q : γ → δ → Prop} {f : α → Except EngineError γ} {g : β → Except EngineError δ}
    (h : Both r x y) (hfg : ∀ a b, r a b → Both q (f a) (g b)) : Both q (x >>= f) (y >>= g) := by
  cases h with
  | ok hr => exact hfg _ _ hr

theorem yielding {p : α → Prop} {q : β → Prop} (h : Both r x y) (hx : Yields p x)
    (hy : Yields q y) : Both (fun a b => p a ∧ q b ∧ r a b) x y := by
  cases h with
  | ok hr =>
    cases hx with
    | ok hp =>
      cases hy with
      | ok hq => exact .ok ⟨hp, hq, hr⟩

end Both

-- ---------------------------------------------------------------------------
-- Operators
-- ---------------------------------------------------------------------------

namespace Operator

def isLogical : Operator → Bool
  | compare _ | and | or | not => true
  | isNull | isNotNull | arithmetic _ => false

def logicalNames : List String := ["and", "or", "not", "eq", "neq", "lt", "lte", "gt", "gte"]

theorem isLogical_of_lookup {name : String} {op : Operator} (hname : name ∈ logicalNames)
    (h : builtin.lookup name = some op) : op.isLogical = true := by
  have hall : ∀ name ∈ logicalNames, (builtin.lookup name).all isLogical = true := by decide
  have hop := hall name hname
  rwa [h] at hop

end Operator

namespace ScalarFunction

variable {f : ScalarFunction} {v w v' w' : Value} {s t : DataType} {a b : Option Bool}

theorem ofTruth_refinedBy : (ofTruth a).RefinedBy (ofTruth b) ↔ a = none ∨ a = b := by
  rcases a with _ | a <;> rcases b with _ | b <;> simp [ofTruth, Value.RefinedBy]

/-- What the connective decides while an operand is not known, it decides whatever the operand
is. -/
def Cautious (connective : Option Bool → Option Bool → Option Bool) : Prop :=
  ∀ a b c d, a = none ∨ a = c → b = none ∨ b = d →
    connective a b = none ∨ connective a b = connective c d

theorem conjunction_cautious : Cautious conjunction := by
  unfold Cautious
  decide

theorem disjunction_cautious : Cautious disjunction := by
  unfold Cautious
  decide

theorem truth_refined (f : ScalarFunction) (h : v.RefinedBy w) (hv : v.fits t = true)
    (hw : w.fits t = true) (ht : Operator.isTruth t = true) :
    Both (fun a b => a = none ∨ a = b) (f.truth v) (f.truth w) := by
  obtain ⟨a, ha, rfl⟩ := f.truth_ok hv ht
  obtain ⟨b, hb, rfl⟩ := f.truth_ok hw ht
  rw [ha, hb]
  exact .ok (ofTruth_refinedBy.mp h)

theorem connective_refined (f : ScalarFunction)
    {connective : Option Bool → Option Bool → Option Bool} (hcautious : Cautious connective)
    (h : Both (fun a b => a = none ∨ a = b) (f.truth v) (f.truth v'))
    (h' : Both (fun a b => a = none ∨ a = b) (f.truth w) (f.truth w')) :
    Both Value.RefinedBy (do return ofTruth (connective (← f.truth v) (← f.truth w)))
      (do return ofTruth (connective (← f.truth v') (← f.truth w'))) :=
  h.bind fun a c hac => h'.bind fun b d hbd =>
    .ok (ofTruth_refinedBy.mpr (hcautious a b c d hac hbd))

theorem compareValues_refined (f : ScalarFunction) (op : Comparison) (hv : v.RefinedBy v')
    (hw : w.RefinedBy w') (hvs : v'.fits s = true) (hwt : w'.fits t = true)
    (h : s.comparableWith t = true) :
    Both Value.RefinedBy (f.compareValues op v w) (f.compareValues op v' w') := by
  obtain ⟨a, ha⟩ := f.compareValues_ok op hvs hwt h
  by_cases hnull : (v.isNull || w.isNull) = true
  · rw [f.compareValues_null op hnull, ha]
    exact .ok (.inl rfl)
  · obtain ⟨hvn, hwn⟩ := Value.not_null_or hnull
    obtain rfl := hv.resolve_left hvn
    obtain rfl := hw.resolve_left hwn
    rw [ha]
    exact .ok (.inr rfl)

/-- Arguments in the place of nulls leave what was decided without them. -/
theorem evaluate_refined {arguments others : List Value} (hf : f.WellTyped)
    (hlogical : f.operator.isLogical = true) (ha : Fit arguments f.info.argumentTypes)
    (ho : Fit others f.info.argumentTypes) (h : Row.RefinedBy arguments others) :
    Both Value.RefinedBy (f.evaluate arguments) (f.evaluate others) := by
  obtain ⟨info, operator⟩ := f
  obtain ⟨⟨name, types⟩, returnType, kind⟩ := info
  simp only [WellTyped, FunctionInfo.argumentTypes] at hf ha ho
  cases hf with
  | compare hab =>
    obtain _ | ⟨hvs, _ | ⟨hwt, _ | _⟩⟩ := ho
    obtain _ | ⟨hv, _ | ⟨hw, _ | _⟩⟩ := h
    exact compareValues_refined _ _ hv hw hvs hwt hab
  | and hs ht =>
    obtain _ | ⟨hvs, _ | ⟨hwt, _ | _⟩⟩ := ha
    obtain _ | ⟨hvs', _ | ⟨hwt', _ | _⟩⟩ := ho
    obtain _ | ⟨hv, _ | ⟨hw, _ | _⟩⟩ := h
    exact connective_refined _ conjunction_cautious (truth_refined _ hv hvs hvs' hs)
      (truth_refined _ hw hwt hwt' ht)
  | or hs ht =>
    obtain _ | ⟨hvs, _ | ⟨hwt, _ | _⟩⟩ := ha
    obtain _ | ⟨hvs', _ | ⟨hwt', _ | _⟩⟩ := ho
    obtain _ | ⟨hv, _ | ⟨hw, _ | _⟩⟩ := h
    exact connective_refined _ disjunction_cautious (truth_refined _ hv hvs hvs' hs)
      (truth_refined _ hw hwt hwt' ht)
  | not hs =>
    obtain _ | ⟨hvs, _ | _⟩ := ha
    obtain _ | ⟨hvs', _ | _⟩ := ho
    obtain _ | ⟨hv, _ | _⟩ := h
    refine (truth_refined _ hv hvs hvs' hs).bind fun a b hab => .ok (ofTruth_refinedBy.mpr ?_)
    rcases hab with rfl | rfl
    · exact .inl rfl
    · exact .inr rfl
  | isNull => cases hlogical
  | isNotNull => cases hlogical
  | arithmetic => cases hlogical

end ScalarFunction

-- ---------------------------------------------------------------------------
-- Expressions
-- ---------------------------------------------------------------------------

mutual
/-- Built of connectives and comparisons over columns and literals. -/
def Symbol.IsLogical : Symbol → Prop
  | literal .. => True
  | reference .. => True
  | call info arguments =>
    Registry.fold info.name ∈ Operator.logicalNames ∧ AreLogical arguments

def Symbol.AreLogical : List Symbol → Prop
  | [] => True
  | symbol :: rest => symbol.IsLogical ∧ AreLogical rest
end

namespace Expression

variable {row other : Row}

mutual
theorem evaluate_refined (h : row.RefinedBy other) : ∀ {symbol : Symbol} {e : Expression},
    symbol.IsLogical → compile .builtin symbol = .ok e → row.Suits symbol.references →
    other.Suits symbol.references → Both Value.RefinedBy (e.evaluate row) (e.evaluate other)
  | .literal value type, e, _, hc, _, _ => by
    simp only [compile] at hc
    split at hc
    · cases hc
      exact .ok (.inr rfl)
    · cases hc
  | .reference index type, e, _, hc, hrow, hother => by
    simp only [compile] at hc
    cases hc
    obtain ⟨v, hv, -⟩ := hrow (index, type) (by simp [Symbol.references])
    obtain ⟨w, hw, -⟩ := hother (index, type) (by simp [Symbol.references])
    simp only [evaluate, hv, hw]
    exact .ok (h.at hv hw)
  | .call info arguments, e, hlogical, hc, hrow, hother => by
    obtain ⟨f, es, rfl, hf, hes, ha, hlength⟩ := compile_call hc
    obtain ⟨hresolve, -⟩ := verifyScalar_resolve hf
    obtain ⟨hlookup, -, -⟩ := ScalarFunction.resolve_ok hresolve
    obtain ⟨hwell, hargs, -⟩ := verifyScalar_wellTyped hf
    have hboth := (evaluateAll_refined h hlogical.2 hes hrow hother).yielding
      (compileAll_typed hes ha hlength hrow).yields
      (compileAll_typed hes ha hlength hother).yields
    rw [← hargs] at hboth
    exact hboth.bind fun vs ws hvw => ScalarFunction.evaluate_refined hwell
      (Operator.isLogical_of_lookup hlogical.1 hlookup) hvw.1 hvw.2.1 hvw.2.2

theorem evaluateAll_refined (h : row.RefinedBy other) :
    ∀ {symbols : List Symbol} {es : List Expression}, Symbol.AreLogical symbols →
    compileAll .builtin symbols = .ok es → row.Suits (Symbol.referencesOf symbols) →
    other.Suits (Symbol.referencesOf symbols) →
    Both Row.RefinedBy (evaluateAll row es) (evaluateAll other es)
  | [], es, _, hc, _, _ => by
    cases hc
    exact .ok .nil
  | symbol :: rest, es, hlogical, hc, hrow, hother => by
    obtain ⟨e, he, hc⟩ := bind_eq_ok.mp hc
    obtain ⟨others, hothers, hc⟩ := bind_eq_ok.mp hc
    cases hc
    exact (evaluate_refined h hlogical.1 he hrow.left hother.left).bind fun v w hvw =>
      (evaluateAll_refined h hlogical.2 hothers hrow.right hother.right).bind fun vs ws hvsws =>
        .ok (.cons hvw hvsws)
end

/-- What connectives and comparisons decide about a row, no value in the place of a null can
overturn. -/
theorem decided_for_good {symbol : Symbol} {e : Expression} (hlogical : symbol.IsLogical)
    (hc : compile .builtin symbol = .ok e) (hrow : row.Suits symbol.references)
    (hother : other.Suits symbol.references) (h : row.RefinedBy other) {b : Bool}
    (hb : e.evaluate row = .ok (.boolean b)) : e.evaluate other = .ok (.boolean b) := by
  have hboth := evaluate_refined h hlogical hc hrow hother
  rw [hb] at hboth
  generalize e.evaluate other = result at hboth
  cases hboth with
  | ok hrefined =>
    rcases hrefined with hnull | rfl
    · cases hnull
    · rfl

theorem decided_for_good_nan :
    let symbol : Symbol := .call ⟨⟨"OR", [.boolean, .boolean]⟩, .boolean, .scalar⟩
      [.call ⟨⟨"lt", [.long, .double]⟩, .boolean, .scalar⟩
        [.reference 0 .long, .reference 1 .double],
        .call ⟨⟨"Not", [.boolean]⟩, .boolean, .scalar⟩ [.reference 2 .boolean]]
    let row : Row := [.long 5, .null, .boolean false]
    let other : Row := [.long 5, .double ⟨0x7ff8000000000000⟩, .boolean false]
    ∃ e, symbol.IsLogical ∧ compile .builtin symbol = .ok e ∧ row.Suits symbol.references ∧
      other.Suits symbol.references ∧ row.RefinedBy other ∧
      e.evaluate row = .ok (.boolean true) ∧ e.evaluate other = .ok (.boolean true) := by
  intro symbol row other
  let lt : ScalarFunction := ⟨⟨⟨"lt", [.long, .double]⟩, .boolean, .scalar⟩, .compare .lt⟩
  let not : ScalarFunction := ⟨⟨⟨"not", [.boolean]⟩, .boolean, .scalar⟩, .not⟩
  let or : ScalarFunction := ⟨⟨⟨"or", [.boolean, .boolean]⟩, .boolean, .scalar⟩, .or⟩
  have hfold : Registry.fold "OR" = "or" ∧ Registry.fold "lt" = "lt" ∧
      Registry.fold "Not" = "not" := by decide +kernel
  have hlogical : symbol.IsLogical := by
    simp [symbol, Symbol.IsLogical, Symbol.AreLogical, FunctionInfo.name, hfold,
      Operator.logicalNames]
  have hc : compile .builtin symbol =
      .ok (.call or [.call lt [.input 0, .input 1], .call not [.input 2]]) := by
    simp only [symbol, compile, compileAll, Registry.verifyScalar, Registry.resolveScalar, hfold]
    rfl
  have hsuits (v : Value) (hv : v.fits .double = true) :
      Row.Suits [.long 5, v, .boolean false] symbol.references := by
    intro r hr
    have hcases : r = (0, .long) ∨ r = (1, .double) ∨ r = (2, .boolean) := by
      simpa [symbol, Symbol.references, Symbol.referencesOf] using hr
    rcases hcases with rfl | rfl | rfl
    · exact ⟨.long 5, rfl, rfl⟩
    · exact ⟨v, rfl, hv⟩
    · exact ⟨.boolean false, rfl, rfl⟩
  have hrefined : row.RefinedBy other := .cons (.inr rfl) (.cons (.inl rfl) (.cons (.inr rfl) .nil))
  exact ⟨_, hlogical, hc, hsuits .null rfl, hsuits _ rfl, hrefined, rfl,
    decided_for_good hlogical hc (hsuits .null rfl) (hsuits _ rfl) hrefined rfl⟩

end Expression

end ShardQuery
