import ShardQuery.Aggregate.Function
/-!
# The registry of functions

Functions are found by name, in any case of letters, and resolved for the types
of their arguments. Every type error of a call is found here, before any row is
looked at.
-/

namespace ShardQuery

/-- Finds a function for a name in lower case and argument types. -/
abbrev ScalarResolver := String → List DataType → Except EngineError ScalarFunction

abbrev AggregateResolver := List DataType → Except EngineError AggregateFunction

structure Registry where
  scalars : List (String × ScalarResolver)
  aggregates : List (String × AggregateResolver)

namespace Registry

def empty : Registry := ⟨[], []⟩

/-- Names are compared in lower case. No letter beyond ASCII has one of the lower-case letters of a
built-in name, so only ASCII letters are folded. -/
def fold (name : String) : String := name.map Char.toLower

/-- Adds a function; it hides one of the same name. -/
def addScalar (registry : Registry) (name : String) (resolver : ScalarResolver) : Registry :=
  { registry with scalars := (fold name, resolver) :: registry.scalars }

def addAggregate (registry : Registry) (name : String) (resolver : AggregateResolver) :
    Registry :=
  { registry with aggregates := (fold name, resolver) :: registry.aggregates }

def builtin : Registry where
  scalars := Operator.builtin.map fun (name, _) => (name, ScalarFunction.resolve)
  aggregates := Summary.builtin.map fun (name, summary) =>
    (name, AggregateFunction.resolve summary)

def resolveScalar (registry : Registry) (signature : Signature) :
    Except EngineError ScalarFunction :=
  let name := fold signature.name
  match registry.scalars.lookup name with
  | some resolver => resolver name signature.argumentTypes
  | none => .error (.typeResolution s!"unknown scalar function {signature.name}")

def resolveAggregate (registry : Registry) (signature : Signature) :
    Except EngineError AggregateFunction :=
  match registry.aggregates.lookup (fold signature.name) with
  | some resolver => resolver signature.argumentTypes
  | none => .error (.typeResolution s!"unknown aggregate function {signature.name}")

def expectKind (info : FunctionInfo) (kind : FunctionKind) : Except EngineError Unit :=
  if info.kind = kind then .ok ()
  else
    let use := s!"declared as {info.kind.name} but used as {kind.name}"
    .error (.typeResolution s!"{info.signature} is {use}")

def expectReturnType (info : FunctionInfo) (resolved : DataType) : Except EngineError Unit :=
  if info.returnType = resolved then .ok ()
  else
    let types := s!"return type {info.returnType} but resolves to {resolved}"
    .error (.typeResolution s!"{info.signature} declares {types}")

/-- Resolves a call of a plan and checks what the plan says about it. -/
def verifyScalar (registry : Registry) (info : FunctionInfo) :
    Except EngineError ScalarFunction := do
  expectKind info .scalar
  let f ← registry.resolveScalar info.signature
  expectReturnType info f.info.returnType
  return f

def verifyAggregate (registry : Registry) (info : FunctionInfo) :
    Except EngineError AggregateFunction := do
  expectKind info .aggregate
  let f ← registry.resolveAggregate info.signature
  expectReturnType info f.info.returnType
  return f

end Registry

end ShardQuery
