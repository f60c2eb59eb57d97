import ShardQuery.Symbol.Basic
import ShardQuery.Value.Wire
/-!
# Symbols on the wire

A tag for the form of the symbol, then its parts. Bytes come from other nodes, so
a reader refuses symbols with more than 64 levels.
-/

namespace ShardQuery.Symbol

open Wire

mutual
def write : Symbol → Output
  | literal value type => .of (0 :: type.write) ++ value.write type
  | reference index type => .of (1 :: vint index ++ type.write)
  | call info arguments =>
    .of (2 :: info.write ++ varint arguments.length) ++ writeEach arguments

def writeEach : List Symbol → Output
  | [] => .of []
  | symbol :: rest => symbol.write ++ writeEach rest
end

def writeAll (symbols : List Symbol) : Output :=
  .of (varint symbols.length) ++ writeEach symbols

def maxDepth : Nat := 64

def readNested : (levels : Nat) → Reader Symbol
  | 0 => Reader.fail s!"symbol nesting exceeds {maxDepth} levels"
  | levels + 1 => do
    let tag ← Reader.byte
    match tag.toNat with
    | 0 =>
      let type ← DataType.read
      return literal (← Value.read type) type
    | 1 =>
      let index ← Reader.vint
      return reference index (← DataType.read)
    | 2 =>
      let info ← FunctionInfo.read
      return call info (← Reader.list (readNested levels))
    | _ => Reader.fail s!"unknown symbol discriminator {tag}"

def read : Reader Symbol := readNested maxDepth

def readAll : Reader (List Symbol) := Reader.list read

end ShardQuery.Symbol
