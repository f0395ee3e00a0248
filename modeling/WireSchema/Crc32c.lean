import WireSchema.Bytes

/-!
# CRC-32C

The 32-bit cyclic redundancy check with the Castagnoli polynomial, least significant bit first,
with all ones as start value and final mask.
-/

namespace WireSchema.Crc32c

/-- The Castagnoli polynomial, bits reversed. -/
def polynomial : UInt32 := 0x82f63b78

/-- The register after one bit. -/
def bitStep (register : UInt32) : UInt32 :=
  if register &&& 1 = 1 then (register >>> 1) ^^^ polynomial else register >>> 1

/-- The register after one byte. -/
def byteStep (register : UInt32) (b : UInt8) : UInt32 :=
  Nat.repeat bitStep 8 (register ^^^ b.toUInt32)

/-- The checksum of a byte string. -/
def checksum (s : Bytes) : UInt32 :=
  s.foldl byteStep 0xffffffff ^^^ 0xffffffff

end WireSchema.Crc32c
