import ShardQuery.Json.Reader
/-!
# Outlines

Which parts of a document are wanted. The others must have the form of values,
but they may hold what no value can: numbers out of range, halves of characters,
containers nested at any depth.
-/

namespace ShardQuery.Json

/-! Passing over values. -/

def afterDigits? : List Char → Option (List Char)
  | c :: rest => if c.isDigit then some (rest.dropWhile Char.isDigit) else none
  | [] => none

def afterExponent? : List Char → Option (List Char)
  | 'e' :: rest | 'E' :: rest =>
    match rest with
    | '+' :: rest | '-' :: rest => afterDigits? rest
    | rest => afterDigits? rest
  | rest => some rest

def afterNumber? (text : List Char) : Option (List Char) := do
  let rest ← match text with
    | '0' :: rest => if rest.head?.any Char.isDigit then none else some rest
    | rest => afterDigits? rest
  match rest with
  | '.' :: rest => afterExponent? (← afterDigits? rest)
  | rest => afterExponent? rest

/-- What is left after the rest of a text and its closing quote. -/
def afterText? : List Char → Option (List Char)
  | '"' :: rest => some rest
  | '\\' :: 'u' :: a :: b :: c :: d :: rest =>
    if [a, b, c, d].all fun c => (Hex.value? c).isSome then afterText? rest else none
  | '\\' :: c :: rest =>
    if ['"', '\\', '/', 'b', 'f', 'n', 'r', 't'].contains c then afterText? rest else none
  | c :: rest => if c.toNat < 32 then none else afterText? rest
  | [] => none

def afterScalar? : List Char → Option (List Char)
  | 'n' :: 'u' :: 'l' :: 'l' :: rest => some rest
  | 't' :: 'r' :: 'u' :: 'e' :: rest => some rest
  | 'f' :: 'a' :: 'l' :: 's' :: 'e' :: rest => some rest
  | '"' :: rest => afterText? rest
  | '-' :: rest => afterNumber? rest
  | rest => afterNumber? rest

/-- What comes next in a value that is passed over. -/
inductive Awaited where
  | value
  | name
  /-- What follows a value: nothing, a comma or a closing bracket. -/
  | sequel

/-- Passes over a value, of which what is awaited and then the closing brackets `owed` are left. -/
def passOver : (fuel : Nat) → Awaited → (owed : List Char) → List Char → Read Unit
  | 0, _, _, rest => .error ("expected a value", rest)
  | fuel + 1, .value, owed, rest =>
    match rest with
    | '[' :: rest =>
      match skipBlanks rest with
      | ']' :: rest => passOver fuel .sequel owed rest
      | rest => passOver fuel .value (']' :: owed) rest
    | '{' :: rest =>
      match skipBlanks rest with
      | '}' :: rest => passOver fuel .sequel owed rest
      | rest => passOver fuel .name ('}' :: owed) rest
    | rest =>
      match afterScalar? rest with
      | some rest => passOver fuel .sequel owed rest
      | none => .error ("expected a value", rest)
  | fuel + 1, .name, owed, rest =>
    match rest with
    | '"' :: rest =>
      match (afterText? rest).map skipBlanks with
      | some (':' :: rest) => passOver fuel .value owed (skipBlanks rest)
      | _ => .error ("expected a name and a colon", rest)
    | rest => .error ("expected a name", rest)
  | _ + 1, .sequel, [], rest => .ok ((), rest)
  | fuel + 1, .sequel, closing :: owed, rest =>
    match skipBlanks rest with
    | ',' :: rest =>
      let awaited := if closing = '}' then Awaited.name else .value
      passOver fuel awaited (closing :: owed) (skipBlanks rest)
    | c :: rest =>
      if c = closing then passOver fuel .sequel owed rest
      else .error ("expected a comma or a bracket", c :: rest)
    | [] => .error ("expected a comma or a bracket", [])

/-! The wanted parts. -/

inductive Outline where
  | whole
  | record (names : List String)
  | list (item : Outline)

namespace Outline

/-- Reads the wanted parts of a value. A value of another shape is wanted as a whole. -/
def read (fuel : Nat) : Outline → (depth : Nat) → List Char → Read Json
  | record names, depth + 1, '{' :: rest =>
    let readMember (name : String) (rest : List Char) : Read (Option Json) :=
      if names.contains name then
        (readValue fuel depth rest).map fun (value, rest) => (some value, rest)
      else (passOver fuel .value [] rest).map fun (_, rest) => (none, rest)
    readObject readMember fuel rest
  | list item, depth + 1, '[' :: rest => readArray (item.read fuel depth) fuel rest
  | _, depth, rest => readValue fuel depth rest

def parse (outline : Outline) (text : String) : Except Fault Json :=
  parseWith (outline.read ·) text

end Outline

end ShardQuery.Json
