/-!
# Checksums

The cyclic redundancy check of thirty-two bits with the reflected polynomial
`edb88320`.
-/

namespace ShardQuery.Wire

def checksumBit (state : UInt32) : UInt32 :=
  if state &&& 1 = 1 then (state >>> 1) ^^^ 0xedb88320 else state >>> 1

def checksumByte (state : UInt32) (b : UInt8) : UInt32 :=
  (List.range 8).foldl (fun state _ => checksumBit state) (state ^^^ b.toUInt32)

def checksum (bytes : List UInt8) : UInt32 :=
  bytes.foldl checksumByte 0xffffffff ^^^ 0xffffffff

/-- The check value of the parameters, which is that of the digits from one to nine. -/
example : checksum [0x31, 0x32, 0x33, 0x34, 0x35, 0x36, 0x37, 0x38, 0x39] = 0xcbf43926 := by
  decide +kernel

end ShardQuery.Wire
