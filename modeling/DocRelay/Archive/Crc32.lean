import DocRelay.Bytes

namespace DocRelay.Archive

/-!
# The check sum of archive entries

The cyclic redundancy check of 32 bits with the reflected polynomial `EDB88320`.

* `crcBit`, `crcByte` — one bit, one byte;
* `crc32` — the check sum of a byte string.
-/

/-- One bit of the division. -/
def crcBit (state : UInt32) : UInt32 :=
  if state &&& 1 == 1 then (state >>> 1) ^^^ 0xEDB88320 else state >>> 1

/-- One byte of the division. -/
def crcByte (state : UInt32) (b : UInt8) : UInt32 :=
  crcBit (crcBit (crcBit (crcBit (crcBit (crcBit (crcBit (crcBit
    (state ^^^ b.toUInt32))))))))

/-- The check sum of a byte string. -/
def crc32 (bytes : Bytes) : UInt32 :=
  bytes.foldl crcByte 0xFFFFFFFF ^^^ 0xFFFFFFFF

end DocRelay.Archive
