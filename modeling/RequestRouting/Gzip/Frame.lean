import RequestRouting.Gzip.Checksum
import RequestRouting.Gzip.Inflate

/-!
# The gzip format

Data is framed by a header, and by its checksum and length at the end. Writing stores the data in
blocks without compressing it, which every reader understands.
-/

namespace RequestRouting.Gzip

/-- A number of the given width in bytes, its lowest byte first. -/
def littleEndian : Nat → Nat → List UInt8
  | 0, _ => []
  | width + 1, n => .ofNat n :: littleEndian width (n / 256)

/-- The number with the given bytes, its lowest byte first. -/
def readLittleEndian : List UInt8 → Nat
  | [] => 0
  | b :: rest => b.toNat + 256 * readLittleEndian rest

/-- The greatest length of a block. -/
def blockLength : Nat := 65535

/-- Data as blocks of bytes as they are. -/
def store (bytes : List UInt8) : List UInt8 :=
  if bytes.length ≤ blockLength then
    1 :: littleEndian 2 bytes.length ++ littleEndian 2 (blockLength - bytes.length) ++ bytes
  else
    0 :: littleEndian 2 blockLength ++ littleEndian 2 0 ++ bytes.take blockLength ++
      store (bytes.drop blockLength)
  termination_by bytes.length
  decreasing_by simp only [List.length_drop, blockLength] at *; omega

/-- A header without a name and a time. -/
def header : List UInt8 := [0x1F, 0x8B, 8, 0, 0, 0, 0, 0, 0, 0xFF]

/-- Encodes data. -/
def encode (data : ByteArray) : ByteArray :=
  let bytes := data.data.toList
  ⟨(header ++ store bytes ++ littleEndian 4 (checksum bytes).toNat ++
    littleEndian 4 bytes.length).toArray⟩

/-- What follows a text that ends in a zero byte. -/
def skipText (bytes : List UInt8) : List UInt8 := (bytes.dropWhile (· ≠ 0)).drop 1

/-- What follows the header. If it ends in a checksum of its own, that must be right. The flags of
the header are the extra field, the name, the comment and the checksum; flags without a meaning are
refused. -/
def skipHeader (bytes : List UInt8) : Option (List UInt8) :=
  match bytes with
  | 0x1F :: 0x8B :: 8 :: flags :: _ :: _ :: _ :: _ :: _ :: _ :: rest =>
    let flag (n : Nat) : Bool := flags.toNat / Nat.pow 2 n % 2 = 1
    let rest := if flag 2 then rest.drop (2 + readLittleEndian (rest.take 2)) else rest
    let rest := if flag 3 then skipText rest else rest
    let rest := if flag 4 then skipText rest else rest
    let header := bytes.take (bytes.length - rest.length)
    let check := (checksum header).toNat % Nat.pow 2 16
    if 32 ≤ flags.toNat then none
    else if flag 1 then
      if readLittleEndian (rest.take 2) = check then some (rest.drop 2) else none
    else some rest
  | _ => none

/-- Decodes data, unless it's malformed, or its checksum or length is wrong. What comes after it is
ignored. -/
def decode? (data : ByteArray) : Option ByteArray := do
  let (rest, out) ← inflate (← skipHeader data.data.toList)
  guard (8 ≤ rest.length)
  guard (readLittleEndian (rest.take 4) = (checksum out.data.toList).toNat)
  guard (readLittleEndian ((rest.drop 4).take 4) = out.size % Nat.pow 2 32)
  some out

end RequestRouting.Gzip
