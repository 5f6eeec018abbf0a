import RequestRouting.Text.Unprintable

/-!
# Quoted text

A text in double quotes, as it's shown in messages: quotes and backslashes are escaped, and
characters that have no glyph of their own are written by their code point.
-/

namespace RequestRouting.Text

/-- The lower case hexadecimal digits of a number. -/
def hexadecimal (n : Nat) : String := .ofList (Nat.toDigits 16 n)

namespace Quoted

/-- A character of a quoted text. -/
def escape (c : Char) : String :=
  if c = '\x00' then "\\0"
  else if c = '\t' then "\\t"
  else if c = '\r' then "\\r"
  else if c = '\n' then "\\n"
  else if c = '\x22' then "\\\""
  else if c = '\x5c' then "\\\\"
  else if isUnprintable c then "\\u\x7b" ++ hexadecimal c.toNat ++ "\x7d"
  else c.toString

end Quoted

/-- The text in double quotes. -/
def quote (s : String) : String := "\"" ++ String.join (s.toList.map Quoted.escape) ++ "\""

end RequestRouting.Text
