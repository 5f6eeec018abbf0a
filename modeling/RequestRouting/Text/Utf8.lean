/-!
# UTF-8

Bytes are read as UTF-8 in two ways: strictly, refusing malformed input, and leniently, putting the
replacement character in place of every maximal malformed piece.
-/

namespace RequestRouting.Text.Utf8

/-- The bytes of a text. -/
def encode (s : List Char) : List UInt8 := s.flatMap String.utf8EncodeChar

/-- The replacement character. -/
def replacement : Char := '\ufffd'

/-- The length of a sequence by its first byte, with the range its second byte must be in. -/
def lead? (b : Nat) : Option (Nat × Nat × Nat) :=
  if 0xC2 ≤ b && b ≤ 0xDF then some (1, 0x80, 0xBF)
  else if b = 0xE0 then some (2, 0xA0, 0xBF)
  else if b = 0xED then some (2, 0x80, 0x9F)
  else if 0xE1 ≤ b && b ≤ 0xEF then some (2, 0x80, 0xBF)
  else if b = 0xF0 then some (3, 0x90, 0xBF)
  else if 0xF1 ≤ b && b ≤ 0xF3 then some (3, 0x80, 0xBF)
  else if b = 0xF4 then some (3, 0x80, 0x8F)
  else none

/-- The value of the continuation bytes of a sequence, appended to the value of its lead. The range
bounds the first of them, all others are unrestricted. -/
def tail? : Nat → Nat → Nat → Nat → List UInt8 → Option Nat
  | 0, _, _, value, _ => some value
  | n + 1, low, high, value, b :: rest =>
    if low ≤ b.toNat && b.toNat ≤ high then tail? n 0x80 0xBF (value * 64 + b.toNat % 64) rest
    else none
  | _ + 1, _, _, _, [] => none

/-- The number of bytes that continue a sequence, up to the first one that can't. -/
def tailLength : Nat → Nat → Nat → List UInt8 → Nat
  | n + 1, low, high, b :: rest =>
    if low ≤ b.toNat && b.toNat ≤ high then tailLength n 0x80 0xBF rest + 1 else 0
  | _, _, _, _ => 0

/-- The first character of a text, with the number of bytes after the first one that belong to it,
or nothing and the number of bytes that belong to the malformed piece. -/
def first (b : UInt8) (rest : List UInt8) : Option Char × Nat :=
  if b.toNat < 0x80 then (some (.ofNat b.toNat), 0)
  else match lead? b.toNat with
    | none => (none, 0)
    | some (n, low, high) =>
      match tail? n low high (b.toNat % Nat.pow 2 (6 - n)) rest with
      | some value => (some (.ofNat value), n)
      | none => (none, tailLength n low high rest)

/-- The text the bytes encode, with the replacement character for every malformed piece. -/
def decodeLenient : List UInt8 → List Char
  | [] => []
  | b :: rest =>
    let (c?, n) := first b rest
    c?.getD replacement :: decodeLenient (rest.drop n)
  termination_by bytes => bytes.length
  decreasing_by simp only [List.length_drop, List.length_cons]; omega

/-- The text the bytes encode, unless they are malformed. -/
def decode? : List UInt8 → Option (List Char)
  | [] => some []
  | b :: rest =>
    match first b rest with
    | (some c, n) => (decode? (rest.drop n)).map (c :: ·)
    | (none, _) => none
  termination_by bytes => bytes.length
  decreasing_by simp only [List.length_drop, List.length_cons]; omega

end RequestRouting.Text.Utf8
