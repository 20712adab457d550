/-!
# CRC-32

The checksum of archive entries: the remainder of the data, read as a polynomial over two elements
with the low bits first, by the polynomial `0xEDB88320`, with all bits inverted before and after.
-/

namespace JvmAudit.Crc32

/-- One division step. -/
def shift (crc : UInt32) : UInt32 := if crc &&& 1 = 1 then (crc >>> 1) ^^^ 0xEDB88320 else crc >>> 1

/-- Takes in one byte. -/
def update (crc : UInt32) (byte : UInt8) : UInt32 :=
  shift <| shift <| shift <| shift <| shift <| shift <| shift <| shift <| crc ^^^ byte.toUInt32

/-- The checksum of bytes. -/
def checksum (data : List UInt8) : Nat := ((data.foldl update 0xFFFFFFFF) ^^^ 0xFFFFFFFF).toNat

/-- The checksum of the digits one to nine. -/
example : checksum [0x31, 0x32, 0x33, 0x34, 0x35, 0x36, 0x37, 0x38, 0x39] = 0xCBF43926 := by
  decide +kernel

end JvmAudit.Crc32
