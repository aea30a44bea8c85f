import Mathlib.Algebra.Group.Nat.Defs
import Mathlib.Logic.Function.Iterate
import Oasi.Foundation.Bytes

/-! # The cyclic redundancy check of archives

The reflected polynomial 0xEDB88320, one bit at a time.
-/

namespace Oasi

/-- One bit of the register. -/
def crc32Bit (register : UInt32) : UInt32 :=
  if register &&& 1 = 1 then (register >>> 1) ^^^ 0xEDB88320 else register >>> 1

def crc32Byte (register : UInt32) (byte : UInt8) : UInt32 :=
  crc32Bit^[8] (register ^^^ byte.toUInt32)

/-- `zlib.crc32(data)` -/
def crc32 (data : Bytes) : Nat := (~~~(data.foldl crc32Byte 0xFFFFFFFF)).toNat

example : crc32 (utf8 "123456789") = 0xCBF43926 := by decide +kernel

end Oasi
