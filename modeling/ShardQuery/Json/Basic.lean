import ShardQuery.Number.Double
/-!
# Documents

The values of JSON. Numbers without fraction and exponent that fit sixty-four
bits are integers; all others are doubles.
-/

namespace ShardQuery

inductive Json where
  | null
  | boolean (value : Bool)
  | integer (value : Int)
  | real (value : Double)
  | text (value : String)
  | array (items : List Json)
  /-- Members in the order of the text; a name may be repeated. -/
  | object (members : List (String × Json))
deriving Inhabited

namespace Json

/-- Puts a member into members sorted by name, in the place of one with the same name. -/
def insertMember (name : String) (value : Json) :
    List (String × Json) → List (String × Json)
  | [] => [(name, value)]
  | (other, old) :: rest =>
    if name < other then (name, value) :: (other, old) :: rest
    else if name = other then (name, value) :: rest
    else (other, old) :: insertMember name value rest

mutual
/-- The same document with the members of every object sorted by name, of equal names the last. -/
def canonical : Json → Json
  | array items => array (canonicalItems items)
  | object members => object (canonicalMembers [] members)
  | json => json

def canonicalItems : List Json → List Json
  | [] => []
  | item :: rest => item.canonical :: canonicalItems rest

def canonicalMembers (sorted : List (String × Json)) :
    List (String × Json) → List (String × Json)
  | [] => sorted
  | (name, value) :: rest => canonicalMembers (insertMember name value.canonical sorted) rest
end

def member? (name : String) : Json → Option Json
  | object members => (members.find? (·.1 == name)).map (·.2)
  | _ => none

def ofNat (n : Nat) : Json := integer n

def ofOption {α : Type} (f : α → Json) : Option α → Json
  | none => null
  | some x => f x

end Json

end ShardQuery
