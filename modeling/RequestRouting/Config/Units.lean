import RequestRouting.Text.Cut

/-!
# Durations and sizes

Time spans and sizes are written as a number with a unit. They are bounded by 64 bits, and a value
that doesn't fit isn't read.
-/

namespace RequestRouting

/-- A time span in milliseconds. -/
abbrev Duration := Nat

namespace Units

/-- The bound of all numbers. -/
def bound : Nat := Nat.pow 2 64

/-- A number made up by decimal digits. -/
def ofDigits (digits : List Char) : Nat :=
  digits.foldl (fun n c => n * 10 + (c.toNat - 0x30)) 0

/-- Splits a text into the number it starts with and the unit it ends with. -/
def split? (text : String) : Option (Nat × String) :=
  let s := text.toList
  let digits := s.takeWhile Char.isDigit
  let unit := s.dropWhile Char.isDigit
  if digits.isEmpty || unit.isEmpty then none
  else
    let n := ofDigits digits
    if n < bound then some (n, .ofList (Text.Chars.trim Text.isBlank unit)) else none

/-- A number of units, if it's within bounds. -/
def scaled? (n factor : Nat) : Option Nat := if n * factor < bound then some (n * factor) else none

/-- The milliseconds of a unit of time. -/
def milliseconds? (unit : String) : Option Nat :=
  if unit = "ms" then some 1
  else if unit = "s" then some 1000
  else if unit = "m" then some (60 * 1000)
  else if unit = "h" then some (60 * 60 * 1000)
  else if unit = "d" then some (24 * 60 * 60 * 1000)
  else if unit = "w" then some (7 * 24 * 60 * 60 * 1000)
  else none

/-- The bytes of a unit of size, in any letter case. -/
def bytes? (unit : String) : Option Nat :=
  let unit := Text.lower unit
  if unit = "b" then some 1
  else if unit = "kb" then some 1024
  else if unit = "mb" then some 1048576
  else if unit = "gb" then some 1073741824
  else none

/-- Reads a duration. -/
def duration? (text : String) : Option Duration := do
  let (n, unit) ← split? text
  scaled? n (← milliseconds? unit)

/-- Reads a size in bytes. -/
def size? (text : String) : Option Nat := do
  let (n, unit) ← split? text
  scaled? n (← bytes? unit)

end Units

/-- The age in seconds that clients may reuse a response for. Negative ages leave it to them. -/
abbrev MaxAge := Int

namespace MaxAge

/-- Ten years. -/
def farFuture : MaxAge := 315360000

/-- An age that isn't set. -/
def unset : MaxAge := -1

/-- Reads an age, rounding down to seconds. -/
def parse? (text : String) : Option MaxAge :=
  if text = "farFuture" then some farFuture
  else (Units.duration? text).map fun ms => (ms / 1000 : Nat)

end MaxAge

end RequestRouting
