/-!
# Shortest decimals

A floating point number stands for all real numbers that round to it. Its shortest decimal is the
one with the fewest digits among those, and of several with equally few, the nearest to the number.

A number is given as `m * 2 ^ q`. All comparisons are made between natural numbers, after
multiplication by the powers of two and ten that are in the way.
-/

namespace RequestRouting

/-- A positive number `digits * 10 ^ exponent`. -/
structure Decimal where
  digits : Nat
  exponent : Int
  deriving DecidableEq, Repr

namespace Decimal

/-- A positive number as a fraction. -/
structure Fraction where
  num : Nat
  den : Nat

/-- The fraction `n * b ^ e`. -/
def Fraction.scaled (n b : Nat) (e : Int) : Fraction :=
  if 0 ≤ e then ⟨n * Nat.pow b e.toNat, 1⟩ else ⟨n, Nat.pow b (-e).toNat⟩

def Fraction.lt (x y : Fraction) : Bool := x.num * y.den < y.num * x.den

def Fraction.le (x y : Fraction) : Bool := x.num * y.den ≤ y.num * x.den

/-- The real numbers that round to a floating point number: those between the bounds, and the bounds
themselves if they are closed. -/
structure Rounding where
  low : Fraction
  value : Fraction
  high : Fraction
  closed : Bool

/-- The interval of `m * 2 ^ q`. The next lower number is only half as far away as the next higher
one if `m` is the least mantissa of its exponent. -/
def Rounding.of (m : Nat) (q : Int) (narrow : Bool) : Rounding where
  low := .scaled (4 * m - if narrow then 1 else 2) 2 (q - 2)
  value := .scaled m 2 q
  high := .scaled (4 * m + 2) 2 (q - 2)
  closed := m % 2 == 0

/-- Whether a decimal rounds to the floating point number. -/
def Rounding.contains (r : Rounding) (d : Decimal) : Bool :=
  let x := Fraction.scaled d.digits 10 d.exponent
  if r.closed then r.low.le x && x.le r.high else r.low.lt x && x.lt r.high

/-- The exponent of the leading digit of a fraction below one, searched from the given place on. -/
def leadingBelowOne (x : Fraction) : Nat → Nat → Nat
  | 0, j => j
  | fuel + 1, j => if x.den ≤ x.num * Nat.pow 10 j then j else leadingBelowOne x fuel (j + 1)

/-- The exponent of the leading digit. -/
def leading (x : Fraction) : Int :=
  if x.den ≤ x.num then (Nat.toDigits 10 (x.num / x.den)).length - 1
  else -(leadingBelowOne x 400 1 : Int)

/-- The nearer of the two neighbours of the number among the multiples of `10 ^ exponent` that
round to it. A tie goes to the even one. -/
def Rounding.onGrid (r : Rounding) (exponent : Int) : Option Decimal :=
  let unit := Fraction.scaled 1 10 exponent
  let num := r.value.num * unit.den
  let den := r.value.den * unit.num
  let below : Decimal := ⟨num / den, exponent⟩
  let above : Decimal := ⟨num / den + 1, exponent⟩
  let rest := num % den
  match r.contains below, r.contains above with
  | true, true =>
    if 2 * rest < den || (2 * rest = den && below.digits % 2 = 0) then some below else some above
  | true, false => some below
  | false, true => some above
  | false, false => none

/-- The first grid with a decimal that rounds to the number, from one digit on. -/
def Rounding.search (r : Rounding) (place : Int) : Nat → Option Decimal
  | 0 => none
  | fuel + 1 =>
    match r.onGrid place with
    | some d => some d
    | none => r.search (place - 1) fuel

/-- The decimal without trailing zeros. -/
def strip (d : Decimal) : Decimal :=
  go d.digits d
where
  go : Nat → Decimal → Decimal
    | 0, d => d
    | fuel + 1, d =>
      if d.digits % 10 = 0 && d.digits ≠ 0 then go fuel ⟨d.digits / 10, d.exponent + 1⟩ else d

/-- The shortest decimal that rounds to the number. Seventeen digits always suffice. -/
def Rounding.shortest (r : Rounding) : Decimal :=
  match r.search (leading r.value) 20 with
  | some d => d
  | none => ⟨0, 0⟩

/-- The mantissa and the exponent of a positive finite double, and whether the mantissa is the least
one of its exponent. -/
def ofBits (bits : UInt64) : Nat × Int × Bool :=
  let fraction : Nat := bits.toNat % Nat.pow 2 52
  let biased : Nat := bits.toNat / Nat.pow 2 52 % Nat.pow 2 11
  if biased = 0 then (fraction, -1074, false)
  else (Nat.pow 2 52 + fraction, (biased : Int) - 1075, fraction = 0 && 1 < biased)

/-- The shortest decimal of a positive finite double. -/
def shortest (x : Float) : Decimal :=
  let (m, q, narrow) := ofBits x.toBits
  (Rounding.of m q narrow).shortest.strip

end Decimal

end RequestRouting
