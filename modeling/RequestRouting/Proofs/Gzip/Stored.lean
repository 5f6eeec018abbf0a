import Mathlib.Data.Nat.Basic
import Mathlib.Data.Option.Basic
import RequestRouting.Gzip.Frame

/-!
# Decoding what was encoded

Data is written as blocks of bytes as they are, so reading a block gives its bytes back, whatever
follows it, and reading blocks up to the last one gives back all of the data. The checksum and the
length behind the blocks are those of the data, so nothing is lost by encoding.
-/

namespace RequestRouting.Gzip

/-! Numbers, their lowest byte first. -/

@[simp] theorem length_littleEndian (width n : Nat) : (littleEndian width n).length = width := by
  induction width generalizing n with
  | zero => rfl
  | succ width ih => simp [littleEndian, ih]

/-- A number that is written in too few bytes loses its highest ones. -/
theorem readLittleEndian_littleEndian (width n : Nat) :
    readLittleEndian (littleEndian width n) = n % Nat.pow 256 width := by
  induction width generalizing n with
  | zero => simp [littleEndian, readLittleEndian, Nat.mod_one]
  | succ width ih =>
    have hpow : Nat.pow 256 (width + 1) = 256 * Nat.pow 256 width := Nat.mul_comm _ _
    rw [hpow, Nat.mod_mul]
    simp only [littleEndian, readLittleEndian, UInt8.toNat_ofNat', ih]

/-! Blocks of bytes as they are. -/

@[simp] theorem data_foldl_push (bytes : List UInt8) (out : ByteArray) :
    (bytes.foldl .push out).data.toList = out.data.toList ++ bytes := by
  induction bytes generalizing out with
  | nil => simp
  | cons b bytes ih => simp [ih]

/-- A block starts with its length, and with what's missing to the greatest length. -/
theorem readStored_block {bytes : List UInt8} (h : bytes.length ≤ blockLength) (b : UInt8)
    (rest : List UInt8) (out : ByteArray) :
    readStored ⟨b :: (littleEndian 2 bytes.length ++ littleEndian 2 (blockLength - bytes.length) ++
      (bytes ++ rest)), 3⟩ out = some (⟨rest, 0⟩, bytes.foldl .push out) := by
  simp only [blockLength] at h ⊢
  have hn : bytes.length % 256 + 256 * (bytes.length / 256 % 256) = bytes.length := by omega
  have hm : bytes.length + ((65535 - bytes.length) % 256 +
      256 * ((65535 - bytes.length) / 256 % 256)) = 65535 := by omega
  simp [readStored, Bits.align, littleEndian, hn, hm]

/-- Blocks are read up to the last one, which the lowest bit of its first byte tells. -/
theorem readBlocks_store (bytes rest : List UInt8) (out : ByteArray) {fuel : Nat}
    (h : bytes.length < fuel) : readBlocks fuel ⟨store bytes ++ rest, 0⟩ out =
      some (⟨rest, 0⟩, bytes.foldl .push out) := by
  induction fuel generalizing bytes out with
  | zero => omega
  | succ fuel ih =>
    rw [store]
    by_cases hlast : bytes.length ≤ blockLength
    · have hblock := readStored_block hlast 1 rest out
      simp only [List.append_assoc] at hblock
      simp [if_pos hlast, readBlocks, Bits.bit?, Bits.number?, hblock]
    · have htake : (bytes.take blockLength).length = blockLength := by
        simp only [List.length_take]
        omega
      have hblock := readStored_block (Nat.le_of_eq htake) 0 (store (bytes.drop blockLength) ++ rest) out
      have hshort : (bytes.drop blockLength).length < fuel := by
        simp only [List.length_drop, blockLength] at hlast ⊢
        omega
      simp only [htake, Nat.sub_self, List.append_assoc] at hblock
      simp only [if_neg hlast, List.append_assoc, List.cons_append]
      simp [readBlocks, Bits.bit?, Bits.number?, hblock, ih _ _ hshort, ← List.foldl_append]

/-- Blocks hold all bytes, and their lengths besides. -/
theorem length_lt_store (bytes : List UInt8) : bytes.length < (store bytes).length := by
  induction bytes using store.induct with
  | case1 bytes h =>
    rw [store, if_pos h]
    simp only [List.length_append, List.length_cons]
    omega
  | case2 bytes h ih =>
    rw [store, if_neg h]
    simp only [List.length_append, List.length_cons, List.length_take, List.length_drop] at ih ⊢
    omega

theorem inflate_store (bytes rest : List UInt8) :
    inflate (store bytes ++ rest) = some (rest, bytes.foldl .push .empty) := by
  have hlength := length_lt_store bytes
  have hfuel : bytes.length < 8 * (store bytes ++ rest).length + 1 := by
    simp only [List.length_append]
    omega
  rw [inflate, readBlocks_store _ _ _ hfuel]
  rfl

theorem skipHeader_header (rest : List UInt8) : skipHeader (header ++ rest) = some rest := by
  simp [skipHeader, header]

/-- Data that was encoded is decoded as what it was. -/
theorem decode?_encode (data : ByteArray) : decode? (encode data) = some data := by
  have hdata : data.data.toList.foldl .push .empty = data := by
    apply ByteArray.ext
    apply Array.toList_inj.mp
    rw [data_foldl_push]
    rfl
  have hlength : data.data.toList.length = data.size := rfl
  have hsum (n : UInt32) : n.toNat % 4294967296 = n.toNat := Nat.mod_eq_of_lt n.toNat_lt
  have htake : (littleEndian 4 data.size).take 4 = littleEndian 4 data.size :=
    List.take_of_length_le (by simp)
  have hguard : (guard True : Option Unit) = some () := rfl
  simp [decode?, encode, skipHeader_header, inflate_store, hdata, hlength, htake,
    readLittleEndian_littleEndian, hsum, hguard]

end RequestRouting.Gzip
