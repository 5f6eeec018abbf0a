/-!
# Base64

The standard alphabet with padding. Reading accepts exactly what writing produces: the padding must
be there, and the bits it stands for must be zero.
-/

namespace RequestRouting.Text.Base64

/-- The digit with the given value below 64. -/
def digit (n : Nat) : Char :=
  if n < 26 then .ofNat (0x41 + n)
  else if n < 52 then .ofNat (0x61 + (n - 26))
  else if n < 62 then .ofNat (0x30 + (n - 52))
  else if n = 62 then '+' else '/'

/-- The value of a digit. -/
def digit? (c : Char) : Option Nat :=
  let n := c.toNat
  if 0x41 ≤ n && n ≤ 0x5A then some (n - 0x41)
  else if 0x61 ≤ n && n ≤ 0x7A then some (n - 0x61 + 26)
  else if 0x30 ≤ n && n ≤ 0x39 then some (n - 0x30 + 52)
  else if c = '+' then some 62
  else if c = '/' then some 63
  else none

/-- Writes three bytes as four digits, padding the last ones. -/
def encode : List UInt8 → List Char
  | [] => []
  | [a] => [digit (a.toNat / 4), digit (a.toNat % 4 * 16), '=', '=']
  | [a, b] =>
    [digit (a.toNat / 4), digit (a.toNat % 4 * 16 + b.toNat / 16), digit (b.toNat % 16 * 4), '=']
  | a :: b :: c :: rest =>
    digit (a.toNat / 4) :: digit (a.toNat % 4 * 16 + b.toNat / 16) ::
      digit (b.toNat % 16 * 4 + c.toNat / 64) :: digit (c.toNat % 64) :: encode rest

/-- Reads four digits as three bytes. Fewer bytes are only read from the last four characters. -/
def decode? : List Char → Option (List UInt8)
  | [] => some []
  | [c, d, '=', '='] => do
    let c ← digit? c
    let d ← digit? d
    if d % 16 = 0 then some [.ofNat (c * 4 + d / 16)] else none
  | [c, d, e, '='] => do
    let c ← digit? c
    let d ← digit? d
    let e ← digit? e
    if e % 4 = 0 then some [.ofNat (c * 4 + d / 16), .ofNat (d % 16 * 16 + e / 4)] else none
  | c :: d :: e :: f :: rest => do
    let c ← digit? c
    let d ← digit? d
    let e ← digit? e
    let f ← digit? f
    let bytes ← decode? rest
    some (.ofNat (c * 4 + d / 16) :: .ofNat (d % 16 * 16 + e / 4) :: .ofNat (e % 4 * 64 + f) :: bytes)
  | _ => none

end RequestRouting.Text.Base64
