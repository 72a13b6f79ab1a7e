/-
CRC-32C and CRC-32, bit by bit.
-/
import Squallz.Bytes.Slice

namespace Squallz.Bytes

/-- One bit of the reflected Castagnoli polynomial. -/
def crc32cBit (crc : UInt32) : UInt32 := if crc &&& 1 ≠ 0 then crc >>> 1 ^^^ 0x82F63B78 else crc >>> 1

def crc32cByte (crc : UInt32) (byte : UInt8) : UInt32 :=
  (List.range 8).foldl (fun crc _ => crc32cBit crc) (crc ^^^ byte.toUInt32)

def crc32c (bytes : List UInt8) : UInt32 := ~~~ bytes.foldl crc32cByte 0xFFFFFFFF

-- the check value of the digits 1 to 9
example : crc32c [49, 50, 51, 52, 53, 54, 55, 56, 57] = 0xE3069283 := by decide +kernel

/-- One bit of the reflected polynomial of CRC-32. -/
def crc32Bit (crc : UInt32) : UInt32 := if crc &&& 1 ≠ 0 then crc >>> 1 ^^^ 0xEDB88320 else crc >>> 1

def crc32Byte (crc : UInt32) (byte : UInt8) : UInt32 :=
  (List.range 8).foldl (fun crc _ => crc32Bit crc) (crc ^^^ byte.toUInt32)

def crc32 (bytes : List UInt8) : UInt32 := ~~~ bytes.foldl crc32Byte 0xFFFFFFFF

example : crc32 [49, 50, 51, 52, 53, 54, 55, 56, 57] = 0xCBF43926 := by decide +kernel

end Squallz.Bytes
