import RequestRouting.Text.Utf8

/-!
# Percent coding

Bytes are written as a percent sign and two hexadecimal digits. Reading leaves alone percent signs
that aren't followed by two digits.
-/

namespace RequestRouting.Text.Percent

/-- The value of a hexadecimal digit in either case. -/
def digit? (b : UInt8) : Option UInt8 :=
  if 0x30 ≤ b && b ≤ 0x39 then some (b - 0x30)
  else if 0x41 ≤ b && b ≤ 0x46 then some (b - 0x41 + 10)
  else if 0x61 ≤ b && b ≤ 0x66 then some (b - 0x61 + 10)
  else none

/-- The upper case hexadecimal digit with the given value. -/
def digit (n : UInt8) : UInt8 := if n < 10 then 0x30 + n else 0x41 + (n - 10)

/-- Writes the bytes that must be escaped as a percent sign and two digits. -/
def encode (escaped : UInt8 → Bool) : List UInt8 → List UInt8
  | [] => []
  | b :: rest =>
    if escaped b then 0x25 :: digit (b / 16) :: digit (b % 16) :: encode escaped rest
    else b :: encode escaped rest

/-- Reads every percent sign followed by two digits as the byte with that value. -/
def decode : List UInt8 → List UInt8
  | 0x25 :: h :: l :: rest =>
    match digit? h, digit? l with
    | some high, some low => (high * 16 + low) :: decode rest
    | _, _ => 0x25 :: decode (h :: l :: rest)
  | b :: rest => b :: decode rest
  | [] => []

end RequestRouting.Text.Percent
