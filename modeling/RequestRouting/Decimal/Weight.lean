import RequestRouting.Text.Cut

/-!
# Weights

The weight of a preference is a number, written in decimal with an optional fraction and exponent.
All that matters of a weight is whether it's above zero. Numbers are held in single precision, so
one of at most `2 ^ -150` counts as zero. Infinity and what isn't a number can be written as well.
-/

namespace RequestRouting.Decimal

/-- A weight as it's written: a number `digits * 10 ^ exponent`, or a value that has no digits. -/
inductive Magnitude where
  | number (digits : Nat) (exponent : Int)
  | infinity
  | notANumber
  deriving DecidableEq, Repr

/-- The number made up by decimal digits. -/
def natural (digits : List Char) : Nat :=
  digits.foldl (fun n c => n * 10 + (c.toNat - 0x30)) 0

/-- What comes after an optional sign, and whether the sign is a minus. -/
def signed : List Char → Bool × List Char
  | '-' :: rest => (true, rest)
  | '+' :: rest => (false, rest)
  | rest => (false, rest)

/-- Reads an exponent, which may be left out. -/
def exponent? : List Char → Option Int
  | [] => some 0
  | c :: rest =>
    if c = 'e' || c = 'E' then
      let (negative, digits) := signed rest
      if digits.isEmpty || !digits.all Char.isDigit then none
      else some (if negative then -natural digits else natural digits)
    else none

/-- Reads a number without sign: digits, with or without a point among them, and an exponent. -/
def number? (s : List Char) : Option Magnitude :=
  let whole := s.takeWhile Char.isDigit
  let rest := s.dropWhile Char.isDigit
  let (fraction, rest) := match rest with
    | '.' :: rest => (rest.takeWhile Char.isDigit, rest.dropWhile Char.isDigit)
    | rest => ([], rest)
  if whole.isEmpty && fraction.isEmpty then none
  else (exponent? rest).map fun e => .number (natural (whole ++ fraction)) (e - fraction.length)

/-- Reads a magnitude. Words are read in any letter case. -/
def magnitude? (s : List Char) : Option Magnitude :=
  let word := Text.lower (.ofList s)
  if word = "inf" || word = "infinity" then some .infinity
  else if word = "nan" then some .notANumber
  else number? s

/-- Whether a number is at most `2 ^ -150`. -/
def isNegligible (digits : Nat) (exponent : Int) : Bool :=
  if digits = 0 then true
  else if 0 ≤ exponent then false
  else
    let places := (-exponent).toNat
    if (Nat.toDigits 10 digits).length + 46 ≤ places then true
    else digits * Nat.pow 2 150 ≤ Nat.pow 10 places

/-- Whether a text is a weight that isn't above zero. -/
def isZeroOrLess (text : String) : Bool :=
  let (negative, s) := signed text.toList
  match magnitude? s with
  | some (.number digits exponent) => negative || isNegligible digits exponent
  | some .infinity => negative
  | some .notANumber | none => false

end RequestRouting.Decimal
