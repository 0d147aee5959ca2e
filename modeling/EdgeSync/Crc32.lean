/-
  Crc32.lean --- `edgesync_crc32.c`: the bit-wise, reflected CRC-32.
-/
import EdgeSync.Foundation.Bytes

set_option autoImplicit false

namespace EdgeSync

open Foundation

/-- The reflected IEEE 802.3 polynomial. -/
def crc32Poly : UInt32 := 0xEDB88320

/-- One bit: `mask = -(crc & 1)`, `crc = (crc >> 1) ^ (poly & mask)`. -/
def crc32Bit (crc : UInt32) : UInt32 := (crc >>> 1) ^^^ (crc32Poly &&& (0 - (crc &&& 1)))

/-- One byte: eight bits after the byte was XORed in. -/
def crc32Byte (crc : UInt32) (b : UInt8) : UInt32 :=
  crc32Bit (crc32Bit (crc32Bit (crc32Bit (crc32Bit (crc32Bit (crc32Bit (crc32Bit
    (crc ^^^ b.toUInt32))))))))

/-- `edgesync_crc32`. -/
def edgesyncCrc32 (seed : UInt32) (data : Bytes) : UInt32 :=
  ~~~(data.foldl crc32Byte (~~~seed))

-- The check value of the algorithm: the CRC of "123456789".
example : edgesyncCrc32 0 [0x31, 0x32, 0x33, 0x34, 0x35, 0x36, 0x37, 0x38, 0x39] = 0xCBF43926 := by
  decide +kernel

end EdgeSync
