/-!
# UTF-8

Text as bytes. Bytes that are no text are described by the place of the first
character that cannot be read and by the longest start of it that could have
begun a character.
-/

namespace ShardQuery.Utf8

def encode (text : String) : List UInt8 := text.toUTF8.toList

structure Fault where
  index : Nat
  /-- The length of the refused sequence; absent if the bytes end inside a character. -/
  length : Option Nat

def Fault.message (fault : Fault) : String :=
  match fault.length with
  | some length => s!"invalid utf-8 sequence of {length} bytes from index {fault.index}"
  | none => s!"incomplete utf-8 byte sequence from index {fault.index}"

/-- The bytes that may follow the first byte of a longer character, least and greatest, and how
many continuation bytes come after that one. -/
def second? (first : UInt8) : Option (UInt8 × UInt8 × Nat) :=
  if first < 0xc2 then none
  else if first < 0xe0 then some (0x80, 0xbf, 0)
  else if first = 0xe0 then some (0xa0, 0xbf, 1)
  else if first = 0xed then some (0x80, 0x9f, 1)
  else if first < 0xf0 then some (0x80, 0xbf, 1)
  else if first = 0xf0 then some (0x90, 0xbf, 2)
  else if first < 0xf4 then some (0x80, 0xbf, 2)
  else if first = 0xf4 then some (0x80, 0x8f, 2)
  else none

def isContinuation (b : UInt8) : Bool := 0x80 ≤ b && b ≤ 0xbf

/-- The first fault of the bytes, which start at `index`. -/
def fault? (index : Nat) : List UInt8 → Option Fault
  | [] => none
  | a :: rest =>
    if a < 0x80 then fault? (index + 1) rest
    else match second? a with
      | none => some ⟨index, some 1⟩
      | some (low, high, more) =>
        match rest with
        | [] => some ⟨index, none⟩
        | b :: rest =>
          if b < low || high < b then some ⟨index, some 1⟩
          else match more, rest with
            | 0, rest => fault? (index + 2) rest
            | _ + 1, [] => some ⟨index, none⟩
            | 1, c :: rest =>
              if isContinuation c then fault? (index + 3) rest else some ⟨index, some 2⟩
            | _ + 2, c :: rest =>
              if !isContinuation c then some ⟨index, some 2⟩
              else match rest with
                | [] => some ⟨index, none⟩
                | d :: rest =>
                  if isContinuation d then fault? (index + 4) rest else some ⟨index, some 3⟩

def decode (bytes : List UInt8) : Except Fault String :=
  match String.fromUTF8? ⟨bytes.toArray⟩ with
  | some text => .ok text
  | none => .error ((fault? 0 bytes).getD ⟨0, some 1⟩)

end ShardQuery.Utf8
