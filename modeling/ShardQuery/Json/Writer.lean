import ShardQuery.Json.Basic
import ShardQuery.Number.Layout
import ShardQuery.Text.Hex
/-!
# Document text

Compact text: no blanks, members as they are ordered, only quotes, backslashes
and control characters escaped.
-/

namespace ShardQuery.Json

def escape (c : Char) : List Char :=
  match c with
  | '"' => ['\\', '"']
  | '\\' => ['\\', '\\']
  | '\n' => ['\\', 'n']
  | '\r' => ['\\', 'r']
  | '\t' => ['\\', 't']
  | '\x08' => ['\\', 'b']
  | '\x0c' => ['\\', 'f']
  | c => if c.toNat < 32 then '\\' :: 'u' :: '0' :: '0' :: Hex.ofByte c.toUInt8 else [c]

def quote (text : String) : String :=
  "\"" ++ String.ofList (text.toList.flatMap escape) ++ "\""

/-- A number that is no number of documents, such as a NaN, is written as null. -/
def number (x : Double) : String := if x.isFinite then Layout.document.double x else "null"

mutual
def render : Json → String
  | null => "null"
  | boolean value => if value then "true" else "false"
  | integer value => toString value
  | real value => number value
  | text value => quote value
  | array items => "[" ++ ",".intercalate (renderItems items) ++ "]"
  | object members => "\x7b" ++ ",".intercalate (renderMembers members) ++ "\x7d"

def renderItems : List Json → List String
  | [] => []
  | item :: rest => item.render :: renderItems rest

def renderMembers : List (String × Json) → List String
  | [] => []
  | (name, value) :: rest => (quote name ++ ":" ++ value.render) :: renderMembers rest
end

end ShardQuery.Json
