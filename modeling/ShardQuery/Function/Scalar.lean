import ShardQuery.Function.Signature
import ShardQuery.Value.Order
/-!
# Scalar functions

Comparisons, the connectives of three-valued logic, tests for null, and
arithmetic. A null operand makes the result null, except where `and` and `or` are
decided by the other operand. Arithmetic on integers is exact: a result that does
not fit a long is an error.
-/

namespace ShardQuery

inductive Comparison where
  | eq
  | neq
  | lt
  | lte
  | gt
  | gte
deriving DecidableEq

def Comparison.holds : Comparison → Ordering → Bool
  | eq, order => order == .eq
  | neq, order => order != .eq
  | lt, order => order == .lt
  | lte, order => order != .gt
  | gt, order => order == .gt
  | gte, order => order != .lt

def toLong? (n : Int) : Option Int64 :=
  if -0x8000000000000000 ≤ n ∧ n < 0x8000000000000000 then some (Int64.ofInt n) else none

def EngineError.divisionByZero : EngineError := .execution "division by zero"

def EngineError.longOverflow : EngineError := .execution "long overflow in arithmetic"

inductive ArithmeticOp where
  | add
  | subtract
  | multiply
  | divide
  | modulus
deriving DecidableEq

namespace ArithmeticOp

/-- The exact result, if it fits. The remainder is refused wherever the quotient does not fit,
which is for the least long and minus one. -/
def onLongs? (op : ArithmeticOp) (a b : Int64) : Option Int64 :=
  match op with
  | add => toLong? (a.toInt + b.toInt)
  | subtract => toLong? (a.toInt - b.toInt)
  | multiply => toLong? (a.toInt * b.toInt)
  | divide => toLong? (a.toInt.tdiv b.toInt)
  | modulus => (toLong? (a.toInt.tdiv b.toInt)).bind fun _ => toLong? (a.toInt.tmod b.toInt)

/-- Division truncates, and the remainder has the sign of the dividend. -/
def onLongs (op : ArithmeticOp) (a b : Int64) : Except EngineError Int64 :=
  if (op = divide ∨ op = modulus) ∧ b = 0 then .error .divisionByZero
  else match op.onLongs? a b with
    | some c => .ok c
    | none => .error .longOverflow

def onDoubles (op : ArithmeticOp) (a b : Double) : Double :=
  match op with
  | add => a + b
  | subtract => a - b
  | multiply => a * b
  | divide => a / b
  | modulus => a % b

end ArithmeticOp

inductive Operator where
  | compare (op : Comparison)
  | and
  | or
  | not
  | isNull
  | isNotNull
  | arithmetic (op : ArithmeticOp)
deriving DecidableEq

namespace Operator

def builtin : List (String × Operator) :=
  [("eq", compare .eq), ("neq", compare .neq), ("lt", compare .lt), ("lte", compare .lte),
    ("gt", compare .gt), ("gte", compare .gte),
    ("add", arithmetic .add), ("subtract", arithmetic .subtract),
    ("multiply", arithmetic .multiply), ("divide", arithmetic .divide),
    ("modulus", arithmetic .modulus),
    ("and", and), ("or", or), ("not", not), ("is_null", isNull), ("is_not_null", isNotNull)]

/-- Whether a column of the type can stand where a truth value is needed. -/
def isTruth (t : DataType) : Bool := t == .boolean || t == .undefined

def returnType? (op : Operator) (types : List DataType) : Option DataType :=
  match op, types with
  | compare _, [a, b] => if a.comparableWith b then some .boolean else none
  | and, [a, b] | or, [a, b] => if isTruth a && isTruth b then some .boolean else none
  | not, [a] => if isTruth a then some .boolean else none
  | isNull, [_] | isNotNull, [_] => some .boolean
  | arithmetic _, [a, b] =>
    if a.isNumeric && b.isNumeric then
      some (if a.isIntegral && b.isIntegral then .long else .double)
    else none
  | _, _ => none

end Operator

structure ScalarFunction where
  info : FunctionInfo
  operator : Operator
deriving DecidableEq

namespace ScalarFunction

def resolve (name : String) (types : List DataType) : Except EngineError ScalarFunction :=
  let signature : Signature := ⟨name, types⟩
  match Operator.builtin.lookup name with
  | none => .error (.typeResolution s!"no scalar function matches {signature}")
  | some operator =>
    match operator.returnType? types with
    | none => .error (.typeResolution s!"no scalar function matches {signature}")
    | some returnType => .ok ⟨⟨signature, returnType, .scalar⟩, operator⟩

def compareValues (f : ScalarFunction) (op : Comparison) (a b : Value) :
    Except EngineError Value :=
  if a.isNull || b.isNull then .ok .null
  else match a.compare? b with
    | some order => .ok (.boolean (op.holds order))
    | none =>
      .error (.execution s!"{f.info.name} cannot compare {a.dataType} with {b.dataType}")

/-- A truth value; null is the unknown one. -/
def truth (f : ScalarFunction) : Value → Except EngineError (Option Bool)
  | .null => .ok none
  | .boolean value => .ok (some value)
  | value =>
    .error (.execution s!"{f.info.name} expected a boolean operand, got {value.dataType}")

def ofTruth : Option Bool → Value
  | none => .null
  | some value => .boolean value

/-- Conjunction: false decides alone. -/
def conjunction : Option Bool → Option Bool → Option Bool
  | some false, _ | _, some false => some false
  | some true, some true => some true
  | _, _ => none

/-- Disjunction: true decides alone. -/
def disjunction : Option Bool → Option Bool → Option Bool
  | some true, _ | _, some true => some true
  | some false, some false => some false
  | _, _ => none

def arithmetic (f : ScalarFunction) (op : ArithmeticOp) (a b : Value) :
    Except EngineError Value :=
  let refusal : EngineError :=
    .execution s!"{f.info.name} expected numeric operands, got {a.dataType} and {b.dataType}"
  if a.isNull || b.isNull then .ok .null
  else if f.info.returnType = .long then
    match a.long?, b.long? with
    | some x, some y => (op.onLongs x y).map .long
    | _, _ => .error refusal
  else
    match a.double?, b.double? with
    | some x, some y => .ok (.double (op.onDoubles x y))
    | _, _ => .error refusal

def evaluate (f : ScalarFunction) (arguments : List Value) : Except EngineError Value :=
  let arity := f.info.argumentTypes.length
  let refusal : EngineError :=
    .execution s!"{f.info.name} expects {arity} arguments, got {arguments.length}"
  if arguments.length ≠ arity then .error refusal
  else match f.operator, arguments with
    | .compare op, [a, b] => f.compareValues op a b
    | .and, [a, b] => do return ofTruth (conjunction (← f.truth a) (← f.truth b))
    | .or, [a, b] => do return ofTruth (disjunction (← f.truth a) (← f.truth b))
    | .not, [a] => do return ofTruth ((← f.truth a).map Bool.not)
    | .isNull, [a] => .ok (.boolean a.isNull)
    | .isNotNull, [a] => .ok (.boolean (!a.isNull))
    | .arithmetic op, [a, b] => f.arithmetic op a b
    | _, _ => .error refusal

end ScalarFunction

end ShardQuery
