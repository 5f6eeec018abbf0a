/-!
# Checksums

The cyclic redundancy check of 32 bits with the reversed polynomial `0xEDB88320`.
-/

namespace RequestRouting.Gzip

/-- Shifts one bit out of the register. -/
def shift (crc : UInt32) : UInt32 :=
  if crc &&& 1 = 1 then (crc >>> 1) ^^^ 0xEDB88320 else crc >>> 1

/-- Adds a byte to the register. -/
def step (crc : UInt32) (b : UInt8) : UInt32 :=
  let x := crc ^^^ b.toUInt32
  shift (shift (shift (shift (shift (shift (shift (shift x)))))))

/-- The checksum of some bytes. -/
def checksum (bytes : List UInt8) : UInt32 := bytes.foldl step 0xFFFFFFFF ^^^ 0xFFFFFFFF

end RequestRouting.Gzip
