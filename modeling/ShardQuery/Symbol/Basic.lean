import ShardQuery.Function.Signature
import ShardQuery.Value.Order
/-!
# Symbols

The expressions of plans: filters, outputs, sort keys and arguments. A symbol
knows the type of its value without the registry of functions.
-/

namespace ShardQuery

inductive Symbol where
  | literal (value : Value) (type : DataType)
  | reference (index : UInt32) (type : DataType)
  | call (info : FunctionInfo) (arguments : List Symbol)
deriving Inhabited

namespace Symbol

def ofValue (value : Value) : Symbol := literal value value.dataType

def valueType : Symbol → DataType
  | literal _ type => type
  | reference _ type => type
  | call info _ => info.returnType

def greatest : Option UInt32 → Option UInt32 → Option UInt32
  | some a, some b => some (if a ≤ b then b else a)
  | some a, none => some a
  | none, b => b

mutual
def maxReference? : Symbol → Option UInt32
  | literal .. => none
  | reference index _ => some index
  | call _ arguments => maxReferenceOf? arguments

def maxReferenceOf? : List Symbol → Option UInt32
  | [] => none
  | symbol :: rest => greatest symbol.maxReference? (maxReferenceOf? rest)
end

mutual
/-- Compact text, such as `gt(in(0), 5)`. -/
def display : Symbol → String
  | literal value _ => value.display
  | reference index _ => s!"in({index})"
  | call info arguments => s!"{info.name}(" ++ ", ".intercalate (displays arguments) ++ ")"

def displays : List Symbol → List String
  | [] => []
  | symbol :: rest => symbol.display :: displays rest
end

def displayAll (symbols : List Symbol) : String := ", ".intercalate (displays symbols)

mutual
/-- Sameness of symbols, with literals compared by `Value.same`. -/
def same : Symbol → Symbol → Bool
  | literal a s, literal b t => a.same b && s == t
  | reference i s, reference j t => i == j && s == t
  | call f a, call g b => f == g && sameAll a b
  | _, _ => false

def sameAll : List Symbol → List Symbol → Bool
  | [], [] => true
  | a :: rest, b :: others => a.same b && sameAll rest others
  | _, _ => false
end

end Symbol

end ShardQuery
