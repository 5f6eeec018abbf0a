import RequestRouting.Json.Basic

/-!
# Reading numbers

A number without fraction and exponent is an integer if it fits into 64 bits, with or without a
sign, except for a negative zero. All others are read as a floating point number, which is computed
from the leading digits that fit into 64 bits, and a power of ten.
-/

namespace RequestRouting.Json

/-- Why a text doesn't start with a number. -/
inductive NumberFlaw where
  | malformed
  /-- The text ends where another digit is needed. -/
  | truncated
  /-- The number is too large for a floating point number. -/
  | outOfRange
  deriving DecidableEq, Repr

/-- What is wrong where a digit is needed, given what stands there. -/
def NumberFlaw.noDigit (cs : List Char) : NumberFlaw := if cs.isEmpty then .truncated else .malformed

/-- The part of a number read so far: its leading digits as a number below `2 ^ 64`, and the power
of ten to multiply it with. -/
structure Significand where
  value : Nat := 0
  exponent : Int := 0

/-- The value of a decimal digit. -/
def digit? (c : Char) : Option Nat := if c.isDigit then some (c.toNat - 0x30) else none

/-- The leading digits of the text as a list of values. -/
def takeDigits (s : List Char) : List Nat := (s.takeWhile Char.isDigit).map (·.toNat - 0x30)

/-- Adds a digit before the decimal point. Digits that don't fit any more only count for the power
of ten, and so do all digits after them. -/
def Significand.pushWhole (s : Significand) (d : Nat) : Significand :=
  if s.exponent = 0 && s.value * 10 + d < Nat.pow 2 64 then { s with value := s.value * 10 + d }
  else { s with exponent := s.exponent + 1 }

/-- Adds the digits after the decimal point, up to the first that doesn't fit. -/
def Significand.pushFraction (s : Significand) : List Nat → Significand
  | [] => s
  | d :: rest =>
    if s.value * 10 + d < Nat.pow 2 64 then
      pushFraction ⟨s.value * 10 + d, s.exponent - 1⟩ rest
    else s

/-- The floating point number `f * 10 ^ exponent`, or nothing if it's too large. The power of ten is
split, since powers beyond `1e308` can't be represented. -/
def scale (f : Float) (exponent : Int) : Option Float :=
  if 0 ≤ exponent then
    if 308 < exponent then if f == 0 then some f else none
    else
      let x := f * Float.ofScientific 1 false exponent.toNat
      if x.isInf then none else some x
  else down f (-exponent).toNat (4 + 1)
where
  /-- Divides by `10 ^ n`, at most by `1e308` at once. -/
  down (f : Float) (n : Nat) : Nat → Option Float
    | 0 => some 0
    | fuel + 1 =>
      if n ≤ 308 then some (f / Float.ofScientific 1 false n)
      else if f == 0 then some f
      else down (f / 1e308) (n - 308) fuel

/-- The number denoted by a significand and its sign. -/
def Significand.toFloat (s : Significand) (negative : Bool) : Except NumberFlaw Float :=
  match scale (Float.ofNat s.value) s.exponent with
  | some x => .ok (if negative then -x else x)
  | none => .error .outOfRange

/-- The exponent written by the digits, which has no effect beyond 32 bits. -/
def exponentOf (digits : List Nat) : Nat :=
  digits.foldl (fun e d => if e < Nat.pow 2 31 then e * 10 + d else e) 0

/-- Reads an exponent, if there is one. -/
def readExponent (s : Significand) (negative : Bool) (cs : List Char) :
    Except NumberFlaw (Json × List Char) :=
  let (down, rest) := match cs with
    | '+' :: rest => (false, rest)
    | '-' :: rest => (true, rest)
    | rest => (false, rest)
  let digits := takeDigits rest
  if digits.isEmpty then .error (.noDigit rest)
  else
    let rest := rest.dropWhile Char.isDigit
    let e := exponentOf digits
    if Nat.pow 2 31 ≤ e then
      if down || s.value = 0 then .ok (.float (if negative then -0.0 else 0.0), rest)
      else .error .outOfRange
    else
      let exponent : Int := if down then s.exponent - e else s.exponent + e
      ({ s with exponent }.toFloat negative).map fun x => (.float x, rest)

/-- Reads what follows the digits before the decimal point. -/
def readFraction (s : Significand) (negative : Bool) (cs : List Char) :
    Except NumberFlaw (Json × List Char) :=
  match cs with
  | '.' :: rest =>
    let digits := takeDigits rest
    if digits.isEmpty then .error (.noDigit rest)
    else
      let s := s.pushFraction digits
      match rest.dropWhile Char.isDigit with
      | 'e' :: rest | 'E' :: rest => readExponent s negative rest
      | rest => (s.toFloat negative).map fun x => (.float x, rest)
  | 'e' :: rest | 'E' :: rest => readExponent s negative rest
  | rest =>
    if s.exponent ≠ 0 then (s.toFloat negative).map fun x => (.float x, rest)
    else if !negative then .ok (.int s.value, rest)
    else if s.value = 0 || Nat.pow 2 63 < s.value then .ok (.float (-(Float.ofNat s.value)), rest)
    else .ok (.int (-s.value), rest)

/-- Reads the digits of a number after its sign. A leading zero must not be followed by a digit. -/
def readWhole (negative : Bool) (cs : List Char) : Except NumberFlaw (Json × List Char) :=
  match takeDigits cs with
  | [] => .error (.noDigit cs)
  | 0 :: _ :: _ => .error .malformed
  | digits =>
    readFraction (digits.foldl Significand.pushWhole {}) negative (cs.dropWhile Char.isDigit)

/-- Reads a number. -/
def readNumber (cs : List Char) : Except NumberFlaw (Json × List Char) :=
  match cs with
  | '-' :: rest => readWhole true rest
  | rest => readWhole false rest

end RequestRouting.Json
