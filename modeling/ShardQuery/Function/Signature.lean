import ShardQuery.DataType
/-!
# Function signatures

A function is called by its name and the types of its arguments. A plan states
with each call what the call returns, so that a plan can be read without knowing
the functions.
-/

namespace ShardQuery

open Wire

structure Signature where
  name : String
  argumentTypes : List DataType
deriving DecidableEq, Inhabited

namespace Signature

def display (s : Signature) : String :=
  s!"{s.name}(" ++ ", ".intercalate (s.argumentTypes.map DataType.name) ++ ")"

instance : ToString Signature := ⟨display⟩

def write (s : Signature) : List UInt8 := text s.name ++ list DataType.write s.argumentTypes

def read : Reader Signature := do
  let name ← Reader.text
  return ⟨name, ← Reader.list DataType.read⟩

end Signature

/-- Whether a function maps rows to values or folds them. -/
inductive FunctionKind where
  | scalar
  | aggregate
deriving DecidableEq, Inhabited

namespace FunctionKind

def id : FunctionKind → UInt8
  | scalar => 0
  | aggregate => 1

def name : FunctionKind → String
  | scalar => "Scalar"
  | aggregate => "Aggregate"

def read : Reader FunctionKind := do
  let id ← Reader.byte
  if id = 0 then return scalar
  else if id = 1 then return aggregate
  else Reader.fail s!"unknown function kind {id}"

end FunctionKind

structure FunctionInfo where
  signature : Signature
  returnType : DataType
  kind : FunctionKind
deriving DecidableEq, Inhabited

namespace FunctionInfo

def name (info : FunctionInfo) : String := info.signature.name

def argumentTypes (info : FunctionInfo) : List DataType := info.signature.argumentTypes

def write (info : FunctionInfo) : List UInt8 :=
  info.signature.write ++ info.returnType.write ++ [info.kind.id]

def read : Reader FunctionInfo := do
  let signature ← Signature.read
  let returnType ← DataType.read
  return ⟨signature, returnType, ← FunctionKind.read⟩

end FunctionInfo

end ShardQuery
