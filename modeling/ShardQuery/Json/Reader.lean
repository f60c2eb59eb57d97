import ShardQuery.Json.Basic
import ShardQuery.Number.Decimal
import ShardQuery.Text.Hex
/-!
# Reading documents

One document with blanks around it. Objects and arrays nest at most 127 deep.
A number with more digits than a word holds drops the digits that do not fit.
-/

namespace ShardQuery.Json

structure Fault where
  reason : String
  line : Nat
  column : Nat

def Fault.message (fault : Fault) : String :=
  s!"{fault.reason} at line {fault.line} column {fault.column}"

/-- The fault at the place of `text` where `rest` is left. -/
def Fault.at (text : String) (reason : String) (rest : List Char) : Fault :=
  let done := text.toList.take (text.length - rest.length)
  ⟨reason, done.count '\n' + 1, (done.reverse.takeWhile (· != '\n')).length⟩

/-- What reading comes to: a result and what is left, or a reason and what was left then. -/
abbrev Read (α : Type) := Except (String × List Char) (α × List Char)

def isBlank (c : Char) : Bool := c == ' ' || c == '\n' || c == '\t' || c == '\r'

def skipBlanks : List Char → List Char
  | c :: rest => if isBlank c then skipBlanks rest else c :: rest
  | [] => []

def digit? (c : Char) : Option Nat := if c.isDigit then some (c.toNat - 48) else none

def leadingNumber (text : List Char) : Nat :=
  (text.takeWhile Char.isDigit).foldl (fun n c => 10 * n + (c.toNat - 48)) 0

/-- Takes digits into a significand of at most sixty-four bits. The digits from the first on that
does not fit are counted instead. -/
def readDigits (significand count dropped : Nat) : List Char → Nat × Nat × Nat × List Char
  | [] => (significand, count, dropped, [])
  | c :: rest =>
    match digit? c with
    | none => (significand, count, dropped, c :: rest)
    | some d =>
      if dropped = 0 ∧ 10 * significand + d < 0x10000000000000000 then
        readDigits (10 * significand + d) (count + 1) 0 rest
      else readDigits significand count (dropped + 1) rest

def outOfRange : String := "number out of range"

def finishReal (negative : Bool) (significand : Nat) (exponent : Int) (rest : List Char) :
    Read Json :=
  match Decimal.read negative (UInt64.ofNat significand) exponent with
  | some x => .ok (real x, rest)
  | none => .error (outOfRange, rest)

def readExponent (negative : Bool) (significand : Nat) (exponent : Int) (rest : List Char) :
    Read Json :=
  let (down, digits) := match rest with
    | '+' :: digits => (false, digits)
    | '-' :: digits => (true, digits)
    | digits => (false, digits)
  match digits with
  | c :: _ =>
    if c.isDigit then
      let power := leadingNumber digits
      let rest := digits.dropWhile Char.isDigit
      if 0x80000000 ≤ power then
        if significand ≠ 0 ∧ !down then .error (outOfRange, rest)
        else .ok (real (if negative then Double.zero.neg else .zero), rest)
      else
        let exponent := if down then exponent - power else exponent + power
        finishReal negative significand exponent rest
    else .error ("invalid number", digits)
  | [] => .error ("unfinished number", [])

/-- What may follow the digits before the point: a fraction, an exponent, or the end. -/
def readTail (negative : Bool) (significand dropped : Nat) (rest : List Char) : Read Json :=
  match rest with
  | '.' :: rest =>
    match rest with
    | c :: _ =>
      if c.isDigit then
        let (significand, count, _, rest) := readDigits significand 0 0 rest
        let exponent : Int := dropped - count
        match rest with
        | 'e' :: rest => readExponent negative significand exponent rest
        | 'E' :: rest => readExponent negative significand exponent rest
        | rest => finishReal negative significand exponent rest
      else .error ("invalid number", rest)
    | [] => .error ("unfinished number", [])
  | 'e' :: rest => readExponent negative significand dropped rest
  | 'E' :: rest => readExponent negative significand dropped rest
  | rest =>
    if dropped ≠ 0 then finishReal negative significand dropped rest
    else if !negative then .ok (integer significand, rest)
    else if 0 < significand ∧ significand ≤ 0x8000000000000000 then
      .ok (integer (-significand), rest)
    else finishReal true significand 0 rest

/-- A number after its sign: no zero in front of other digits. -/
def readNumber (negative : Bool) (text : List Char) : Read Json :=
  match text with
  | '0' :: rest =>
    match rest with
    | c :: _ => if c.isDigit then .error ("invalid number", rest) else readTail negative 0 0 rest
    | [] => readTail negative 0 0 []
  | c :: _ =>
    if c.isDigit then
      let (significand, _, dropped, rest) := readDigits 0 0 0 text
      readTail negative significand dropped rest
    else .error ("invalid number", text)
  | [] => .error ("unfinished number", [])

def readUnit? : List Char → Option (Nat × List Char)
  | a :: b :: c :: d :: rest => (Hex.nat? [a, b, c, d]).map (·, rest)
  | _ => none

/-- What the digits of a `\u` escape stand for; a character beyond the basic plane takes two. -/
def readUnicode? (text : List Char) : Option (Char × List Char) :=
  match readUnit? text with
  | none => none
  | some (high, rest) =>
    if 0xd800 ≤ high ∧ high < 0xdc00 then
      match rest with
      | '\\' :: 'u' :: rest =>
        match readUnit? rest with
        | some (low, rest) =>
          if 0xdc00 ≤ low ∧ low < 0xe000 then
            some (Char.ofNat (0x10000 + (high - 0xd800) * 0x400 + (low - 0xdc00)), rest)
          else none
        | none => none
      | _ => none
    else if 0xdc00 ≤ high ∧ high < 0xe000 then none
    else some (Char.ofNat high, rest)

/-- The rest of a text after its opening quote; `fuel` bounds its length. -/
def readText : (fuel : Nat) → (done : List Char) → List Char → Read String
  | 0, _, rest => .error ("unfinished text", rest)
  | _ + 1, _, [] => .error ("unfinished text", [])
  | fuel + 1, done, c :: rest =>
    if c = '"' then .ok (String.ofList done.reverse, rest)
    else if c = '\\' then
      match rest with
      | '"' :: rest => readText fuel ('"' :: done) rest
      | '\\' :: rest => readText fuel ('\\' :: done) rest
      | '/' :: rest => readText fuel ('/' :: done) rest
      | 'b' :: rest => readText fuel ('\x08' :: done) rest
      | 'f' :: rest => readText fuel ('\x0c' :: done) rest
      | 'n' :: rest => readText fuel ('\n' :: done) rest
      | 'r' :: rest => readText fuel ('\r' :: done) rest
      | 't' :: rest => readText fuel ('\t' :: done) rest
      | 'u' :: rest =>
        match readUnicode? rest with
        | some (c, rest) => readText fuel (c :: done) rest
        | none => .error ("invalid escape", rest)
      | rest => .error ("invalid escape", rest)
    else if c.toNat < 32 then .error ("control character in a text", c :: rest)
    else readText fuel (c :: done) rest

/-- Items up to the closing bracket, each read by `read`, without blanks in front of the first. -/
def readItems (read : List Char → Read Json) : (fuel : Nat) → List Char → Read (List Json)
  | 0, rest => .error ("expected a value", rest)
  | fuel + 1, rest =>
    match read rest with
    | .error e => .error e
    | .ok (item, rest) =>
      match skipBlanks rest with
      | ',' :: rest =>
        (readItems read fuel (skipBlanks rest)).map fun (items, rest) => (item :: items, rest)
      | ']' :: rest => .ok ([item], rest)
      | rest => .error ("expected a comma or a bracket", rest)

/-- Members up to the closing brace, without blanks in front of the first. The value of each name
is read by `read`, or passed over by it. -/
def readMembers (read : String → List Char → Read (Option Json)) :
    (fuel : Nat) → List Char → Read (List (String × Json))
  | 0, rest => .error ("expected a name", rest)
  | fuel + 1, rest =>
    match rest with
    | '"' :: rest =>
      match readText fuel [] rest with
      | .error e => .error e
      | .ok (name, rest) =>
        match skipBlanks rest with
        | ':' :: rest =>
          match read name (skipBlanks rest) with
          | .error e => .error e
          | .ok (value?, rest) =>
            let members := (value?.map fun value => (name, value)).toList
            match skipBlanks rest with
            | ',' :: rest =>
              (readMembers read fuel (skipBlanks rest)).map fun (others, rest) =>
                (members ++ others, rest)
            | '}' :: rest => .ok (members, rest)
            | rest => .error ("expected a comma or a brace", rest)
        | rest => .error ("expected a colon", rest)
    | rest => .error ("expected a name", rest)

def readArray (read : List Char → Read Json) (fuel : Nat) (text : List Char) : Read Json :=
  match skipBlanks text with
  | ']' :: rest => .ok (array [], rest)
  | rest => (readItems read fuel rest).map fun (items, rest) => (array items, rest)

def readObject (read : String → List Char → Read (Option Json)) (fuel : Nat)
    (text : List Char) : Read Json :=
  match skipBlanks text with
  | '}' :: rest => .ok (object [], rest)
  | rest => (readMembers read fuel rest).map fun (members, rest) => (object members, rest)

def tooDeep : String := "nested too deeply"

/-- One value without blanks in front; containers may nest `depth` deep. -/
def readValue : (fuel depth : Nat) → List Char → Read Json
  | 0, _, rest => .error ("expected a value", rest)
  | fuel + 1, depth, rest =>
    match rest with
    | 'n' :: 'u' :: 'l' :: 'l' :: rest => .ok (null, rest)
    | 't' :: 'r' :: 'u' :: 'e' :: rest => .ok (boolean true, rest)
    | 'f' :: 'a' :: 'l' :: 's' :: 'e' :: rest => .ok (boolean false, rest)
    | '-' :: rest => readNumber true rest
    | '"' :: rest => (readText fuel [] rest).map fun (s, rest) => (Json.text s, rest)
    | '[' :: rest =>
      match depth with
      | 0 => .error (tooDeep, rest)
      | depth + 1 => readArray (readValue fuel depth) fuel rest
    | '{' :: rest =>
      match depth with
      | 0 => .error (tooDeep, rest)
      | depth + 1 =>
        let readMember (_ : String) (rest : List Char) : Read (Option Json) :=
          (readValue fuel depth rest).map fun (value, rest) => (some value, rest)
        readObject readMember fuel rest
    | c :: rest =>
      if c.isDigit then readNumber false (c :: rest) else .error ("expected a value", c :: rest)
    | [] => .error ("expected a value", [])

def parseWith (read : (fuel depth : Nat) → List Char → Read Json) (text : String) :
    Except Fault Json :=
  let chars := skipBlanks text.toList
  match read (2 * chars.length + 2) 127 chars with
  | .error (reason, rest) => .error (.at text reason rest)
  | .ok (json, rest) =>
    match skipBlanks rest with
    | [] => .ok json
    | rest => .error (.at text "trailing characters" rest)

def parse (text : String) : Except Fault Json := parseWith readValue text

end ShardQuery.Json
