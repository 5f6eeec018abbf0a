import RequestRouting.Decimal.Shortest
import RequestRouting.Text.Quoted
import RequestRouting.Text.Cut

/-!
# JSON values

Objects keep their members in order, repeated keys included, since configuration is read in order.
Numbers without fraction and exponent are integers as long as they fit into 64 bits, and all others
are floating point numbers.
-/

namespace RequestRouting

/-- A JSON value. -/
inductive Json where
  | null
  | bool (value : Bool)
  | int (value : Int)
  | float (value : Float)
  | str (value : String)
  | arr (items : List Json)
  | obj (members : List (String × Json))
  deriving Inhabited

namespace Json

/-- The digits of a decimal in scientific notation, with the exponent of the leading one. -/
def scientific (d : Decimal) : List Char × Int :=
  let digits := Nat.toDigits 10 d.digits
  (digits, d.exponent + digits.length - 1)

/-- A positive number is written with its shortest digits, positionally from `1e-5` to below `1e16`
with at least one decimal place, and in scientific notation otherwise. -/
def positiveText (x : Float) : String :=
  let (digits, e) := scientific (Decimal.shortest x)
  let n : Int := digits.length
  if 0 ≤ e && e < 16 then
    if n ≤ e + 1 then
      .ofList (digits ++ List.replicate (e + 1 - n).toNat '0') ++ ".0"
    else
      .ofList (digits.take (e + 1).toNat) ++ "." ++ .ofList (digits.drop (e + 1).toNat)
  else if -5 ≤ e && e < 0 then
    "0." ++ .ofList (List.replicate (-e - 1).toNat '0') ++ .ofList digits
  else
    let fraction := if n = 1 then "" else "." ++ String.ofList (digits.drop 1)
    let exponent := if 0 ≤ e then s!"+{e}" else s!"{e}"
    .ofList (digits.take 1) ++ fraction ++ "e" ++ exponent

/-- The text of a finite floating point number. -/
def floatText (x : Float) : String :=
  let sign := if x.toBits.toNat < Nat.pow 2 63 then "" else "-"
  let magnitude := x.abs
  sign ++ if magnitude == 0 then "0.0" else positiveText magnitude

/-- A character of a string: quotes, backslashes and control characters are escaped. -/
def escape (c : Char) : String :=
  if c = '\x22' then "\\\""
  else if c = '\x5c' then "\\\\"
  else if c = '\n' then "\\n"
  else if c = '\r' then "\\r"
  else if c = '\t' then "\\t"
  else if c = '\x08' then "\\b"
  else if c = '\x0c' then "\\f"
  else if c.toNat < 0x20 then
    let digits := Text.hexadecimal c.toNat
    "\\u" ++ .ofList (List.replicate (4 - digits.length) '0') ++ digits
  else c.toString

/-- A string in quotes. -/
def stringText (s : String) : String := "\"" ++ String.join (s.toList.map escape) ++ "\""

mutual

/-- The compact text of a value. -/
def text : Json → String
  | null => "null"
  | bool b => if b then "true" else "false"
  | int i => toString i
  | float x => floatText x
  | str s => stringText s
  | arr items => "[" ++ Text.join "," (itemTexts items) ++ "]"
  | obj members => "\x7b" ++ Text.join "," (memberTexts members) ++ "\x7d"
  termination_by structural v => v

/-- The texts of the items of an array. -/
def itemTexts : List Json → List String
  | [] => []
  | v :: rest => v.text :: itemTexts rest
  termination_by structural l => l

/-- The texts of the members of an object. -/
def memberTexts : List (String × Json) → List String
  | [] => []
  | (k, v) :: rest => (stringText k ++ ":" ++ v.text) :: memberTexts rest
  termination_by structural l => l

end

end Json

end RequestRouting
