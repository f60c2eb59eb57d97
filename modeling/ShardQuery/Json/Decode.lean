import ShardQuery.Json.Reader
import ShardQuery.Number.Single
/-!
# Typed parts of documents

Records are objects, in which unknown members are passed over, or arrays of
their fields in order. An alternative is its name, or an object with that name
and a payload. What stands inside a record that has alternatives itself is nested,
and decoded more freely.
-/

namespace ShardQuery.Json

mutual
def depth : Json → Nat
  | array items => depthOfItems items + 1
  | object members => depthOfMembers members + 1
  | _ => 0

def depthOfItems : List Json → Nat
  | [] => 0
  | item :: rest => max item.depth (depthOfItems rest)

def depthOfMembers : List (String × Json) → Nat
  | [] => 0
  | (_, value) :: rest => max value.depth (depthOfMembers rest)
end

/-- The fields of a record by name, each absent or present. -/
abbrev Fields := List (String × Option Json)

def named (name : String) (members : List (String × Json)) : List Json :=
  (members.filter (·.1 == name)).map (·.2)

/-- The fields of a record. No field may be given twice, a closed record has no other members, and
an array has no more items than there are fields. -/
def fields? (names : List String) (isClosed : Bool) : Json → Option Fields
  | object members =>
    if isClosed && members.any (fun (name, _) => !names.contains name) then none
    else names.mapM fun name =>
      match named name members with
      | [] => some (name, none)
      | [value] => some (name, some value)
      | _ => none
  | array items =>
    if names.length < items.length then none
    else some (names.zip (items.map some ++ List.replicate names.length none))
  | _ => none

namespace Fields

def get (fields : Fields) (name : String) : Option Json := (fields.lookup name).join

def required {α : Type} (fields : Fields) (name : String) (decode : Json → Option α) : Option α :=
  (fields.get name).bind decode

def optional {α : Type} (fields : Fields) (name : String) (decode : Json → Option α)
    (absent : α) : Option α :=
  match fields.get name with
  | none => some absent
  | some json => decode json

end Fields

/-- The alternative that a tag names. If it is nested, the place of the name among `names` serves as
well. -/
def tagName? (names : List String) (isNested : Bool) : Json → Option String
  | text name => if names.contains name then some name else none
  | integer n => if isNested && decide (0 ≤ n) then names[n.toNat]? else none
  | _ => none

/-- The alternative of a record with alternatives, and the rest of the record. -/
def tagged? (tag : String) (names : List String) (isNested : Bool) :
    Json → Option (String × Json)
  | object members =>
    match named tag members with
    | [value] => (tagName? names isNested value).map (·, object members)
    | _ => none
  | array (first :: items) => (tagName? names isNested first).map (·, array items)
  | _ => none

/-- The name of an alternative, and its payload if there is one. -/
def variant? : Json → Option (String × Option Json)
  | text name => some (name, none)
  | object [(name, payload)] => some (name, some payload)
  | _ => none

/-- Whether a payload is no content: null, or nested also an empty object. -/
def isUnit (isNested : Bool) : Json → Bool
  | null => true
  | object [] => isNested
  | _ => false

def choice? {α : Type} (options : List (String × α)) (isNested : Bool) (json : Json) :
    Option α := do
  let (name, payload?) ← variant? json
  if payload?.all (isUnit isNested) then options.lookup name else none

def boolean? : Json → Option Bool
  | boolean value => some value
  | _ => none

def text? : Json → Option String
  | text value => some value
  | _ => none

def integer? (low high : Int) : Json → Option Int
  | integer value => if low ≤ value ∧ value ≤ high then some value else none
  | _ => none

def int8? (json : Json) : Option Int8 := (json.integer? (-0x80) 0x7f).map Int8.ofInt

def int16? (json : Json) : Option Int16 := (json.integer? (-0x8000) 0x7fff).map Int16.ofInt

def int32? (json : Json) : Option Int32 :=
  (json.integer? (-0x80000000) 0x7fffffff).map Int32.ofInt

def int64? (json : Json) : Option Int64 :=
  (json.integer? (-0x8000000000000000) 0x7fffffffffffffff).map Int64.ofInt

def uint64? (json : Json) : Option UInt64 :=
  (json.integer? 0 0xffffffffffffffff).map fun n => UInt64.ofNat n.toNat

def uint32? (json : Json) : Option UInt32 :=
  (json.integer? 0 0xffffffff).map fun n => UInt32.ofNat n.toNat

def option? {α : Type} (decode : Json → Option α) : Json → Option (Option α)
  | null => some none
  | json => (decode json).map some

def list? {α : Type} (decode : Json → Option α) : Json → Option (List α)
  | array items => items.mapM decode
  | _ => none

def doubleOfInt (n : Int) : Double :=
  if n < 0 then .ofInt64 (Int64.ofInt n) else .ofCount (UInt64.ofNat n.toNat)

def double? : Json → Option Double
  | real value => some value
  | integer value => some (doubleOfInt value)
  | _ => none

def single? : Json → Option Single
  | real value => some (.ofDouble value)
  | integer value => some (.ofInt value)
  | _ => none

end ShardQuery.Json
