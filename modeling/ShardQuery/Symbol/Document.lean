import ShardQuery.Symbol.Basic
import ShardQuery.Value.Document
/-!
# Symbols in documents
-/

namespace ShardQuery

open Json

namespace Signature

def ofDocument? (isNested : Bool) (json : Json) : Option Signature := do
  let fields ← fields? ["name", "argument_types"] false json
  let name ← fields.required "name" text?
  return ⟨name, ← fields.required "argument_types" (list? (DataType.ofDocument? isNested))⟩

def toDocument (s : Signature) : Json :=
  .object [("name", .text s.name),
    ("argument_types", .array (s.argumentTypes.map DataType.toDocument))]

end Signature

namespace FunctionKind

def ofDocument? (isNested : Bool) : Json → Option FunctionKind :=
  choice? [("scalar", scalar), ("aggregate", aggregate)] isNested

def toDocument : FunctionKind → Json
  | scalar => .text "scalar"
  | aggregate => .text "aggregate"

end FunctionKind

namespace FunctionInfo

def ofDocument? (isNested : Bool) (json : Json) : Option FunctionInfo := do
  let fields ← fields? ["ident", "return_type", "kind"] false json
  let signature ← fields.required "ident" (Signature.ofDocument? isNested)
  let returnType ← fields.required "return_type" (DataType.ofDocument? isNested)
  return ⟨signature, returnType, ← fields.required "kind" (FunctionKind.ofDocument? isNested)⟩

def toDocument (info : FunctionInfo) : Json :=
  .object [("ident", info.signature.toDocument), ("return_type", info.returnType.toDocument),
    ("kind", info.kind.toDocument)]

end FunctionInfo

namespace Symbol

/-- A symbol of at most `levels` levels. -/
def ofDocumentWithin? : (levels : Nat) → (isNested : Bool) → Json → Option Symbol
  | 0, _, _ => none
  | levels + 1, isNested, json => do
    let (name, json) ← tagged? "symbol" ["literal", "reference", "function"] isNested json
    match name with
    | "literal" =>
      let fields ← fields? ["value", "data_type"] false json
      let value ← fields.required "value" Value.ofDocument?
      return literal value (← fields.required "data_type" (DataType.ofDocument? true))
    | "reference" =>
      let fields ← fields? ["index", "data_type"] false json
      let index ← fields.required "index" uint32?
      return reference index (← fields.required "data_type" (DataType.ofDocument? true))
    | _ =>
      let fields ← fields? ["info", "arguments"] false json
      let info ← fields.required "info" (FunctionInfo.ofDocument? true)
      return call info (← fields.required "arguments" (list? (ofDocumentWithin? levels true)))

/-- The symbol of a document; `isNested` for the symbols of projections. -/
def ofDocument? (isNested : Bool) (json : Json) : Option Symbol :=
  ofDocumentWithin? (json.depth + 1) isNested json

mutual
def toDocument : Symbol → Json
  | literal value type =>
    .object [("symbol", .text "literal"), ("value", value.toDocument),
      ("data_type", type.toDocument)]
  | reference index type =>
    .object [("symbol", .text "reference"), ("index", .ofNat index.toNat),
      ("data_type", type.toDocument)]
  | call info arguments =>
    .object [("symbol", .text "function"), ("info", info.toDocument),
      ("arguments", .array (toDocuments arguments))]

def toDocuments : List Symbol → List Json
  | [] => []
  | symbol :: rest => symbol.toDocument :: toDocuments rest
end

end Symbol

end ShardQuery
