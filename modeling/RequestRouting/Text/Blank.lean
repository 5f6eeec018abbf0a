/-!
# Blank characters

Blank characters are those with the Unicode property White_Space, which is wider than the ASCII
blanks: it holds the no-break space, the line separators and the typographic spaces.
-/

namespace RequestRouting.Text

/-- The characters with the Unicode property White_Space. -/
def isBlank (c : Char) : Bool :=
  let n := c.toNat
  (0x09 ≤ n && n ≤ 0x0D) || n == 0x20 || n == 0x85 || n == 0xA0 || n == 0x1680 ||
    (0x2000 ≤ n && n ≤ 0x200A) || n == 0x2028 || n == 0x2029 || n == 0x202F || n == 0x205F ||
    n == 0x3000

example : isBlank '\t' = true ∧ isBlank '\u2003' = true ∧ isBlank 'x' = false := by decide

end RequestRouting.Text
