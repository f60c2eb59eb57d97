import ShardQuery.Text.Hex
/-!
# Job ids

Sixteen bytes, written as hexadecimal digits in five groups. They are read with
or without hyphens, and with hyphens also in braces or as a name. Letters may be
of either case.
-/

namespace ShardQuery

structure JobId where
  bytes : List UInt8
  length_bytes : bytes.length = 16
deriving DecidableEq

namespace JobId

def ofBytes? (bytes : List UInt8) : Option JobId :=
  if h : bytes.length = 16 then some ⟨bytes, h⟩ else none

def nil : JobId := ⟨List.replicate 16 0, rfl⟩

instance : Inhabited JobId := ⟨nil⟩

def toText (id : JobId) : String :=
  let group (start count : Nat) := Hex.ofBytes ((id.bytes.drop start).take count)
  "-".intercalate [group 0 4, group 4 2, group 6 2, group 8 2, group 10 6]

instance : ToString JobId := ⟨toText⟩

def ofSimple? (digits : List Char) : Option JobId :=
  if digits.length = 32 then (Hex.bytes? digits).bind ofBytes? else none

/-- The form with hyphens after 8, 12, 16 and 20 digits. -/
def ofHyphenated? (text : List Char) : Option JobId :=
  let hyphens := [text[8]?, text[13]?, text[18]?, text[23]?]
  if text.length = 36 ∧ hyphens.all (· == some '-') then
    ofSimple? (text.filter (· != '-'))
  else none

def ofText? (text : String) : Option JobId :=
  let chars := text.toList
  match chars.length with
  | 32 => ofSimple? chars
  | 36 => ofHyphenated? chars
  | 38 =>
    if chars.head? = some '{' ∧ chars.getLast? = some '}' then
      ofHyphenated? (chars.tail.take 36)
    else none
  | 45 =>
    if (chars.take 9).map Char.toLower = "urn:uuid:".toList then ofHyphenated? (chars.drop 9)
    else none
  | _ => none

end JobId

end ShardQuery
