import ShardQuery.Function.Registry
import ShardQuery.Symbol.Basic
/-!
# Expressions

A symbol whose calls have been resolved. Compiling finds every fault of a symbol
that does not depend on rows; evaluating reads one row.
-/

namespace ShardQuery

inductive Expression where
  | literal (value : Value)
  | input (index : Nat)
  | call (function : ScalarFunction) (arguments : List Expression)

namespace Expression

/-- Checks that each argument has the type that the call declares for it. An argument without a
type fits everywhere. -/
def checkArguments (info : FunctionInfo) : List Symbol → List DataType → Except EngineError Unit
  | argument :: rest, expected :: types =>
    let actual := argument.valueType
    if actual ≠ expected ∧ actual ≠ .undefined then
      .error (.typeResolution s!"{info.signature} expects {expected} but argument is {actual}")
    else checkArguments info rest types
  | _, _ => .ok ()

mutual
def compile (registry : Registry) : Symbol → Except EngineError Expression
  | .literal value type =>
    if value.fits type then .ok (literal value)
    else .error (.invalidPlan s!"literal {value} does not fit its declared type {type}")
  | .reference index _ => .ok (input index.toNat)
  | .call info arguments => do
    if info.kind = .aggregate then
      throw (.invalidPlan s!"aggregate {info.signature} used in a scalar context")
    if info.argumentTypes.length ≠ arguments.length then
      throw (.invalidPlan s!"{info.signature} called with {arguments.length} arguments")
    checkArguments info arguments info.argumentTypes
    let function ← registry.verifyScalar info
    return call function (← compileAll registry arguments)

def compileAll (registry : Registry) : List Symbol → Except EngineError (List Expression)
  | [] => .ok []
  | symbol :: rest => do
    let expression ← compile registry symbol
    return expression :: (← compileAll registry rest)
end

mutual
def evaluate (row : Row) : Expression → Except EngineError Value
  | literal value => .ok value
  | input index =>
    match row[index]? with
    | some value => .ok value
    | none =>
      .error (.execution s!"column {index} out of range for a row of {row.length} values")
  | call function arguments => do function.evaluate (← evaluateAll row arguments)

def evaluateAll (row : Row) : List Expression → Except EngineError (List Value)
  | [] => .ok []
  | expression :: rest => do
    let value ← evaluate row expression
    return value :: (← evaluateAll row rest)
end

def project (expressions : List Expression) (row : Row) : Except EngineError Row :=
  evaluateAll row expressions

end Expression

end ShardQuery
