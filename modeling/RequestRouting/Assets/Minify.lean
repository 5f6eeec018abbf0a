import RequestRouting.Text.Cut

/-!
# Minification

Comments, white space at the end of lines and blank lines are removed, while code and string
literals are left alone. Comments starting with an exclamation mark are kept.
-/

namespace RequestRouting

/-- A language that can be minified. -/
inductive Minify where
  /-- Scripts, with line and block comments. -/
  | script
  /-- Style sheets, with block comments. -/
  | style
  deriving DecidableEq, Repr

namespace Minify

/-- The language of a file extension. -/
def ofExtension? (extension : String) : Option Minify :=
  if extension = "js" || extension = "mjs" then some .script
  else if extension = "css" then some .style
  else none

/-- Whether a character opens a string literal. -/
def isDelimiter (lang : Minify) (c : Char) : Bool :=
  c = '\x22' || c = '\x27' || (lang = .script && c = '\x60')

/-- What the text read so far leaves open. -/
inductive Mode where
  | code
  | literal (delimiter : Char)
  | line
  | block
  deriving DecidableEq, Repr

/-- Removes the comments of a text, given what is open and the character before the text. -/
def strip (lang : Minify) (mode : Mode) (prev : Char) : List Char → List Char
  | [] => []
  | [c] =>
    match mode with
    | .code | .literal _ => [c]
    | .line => if c = '\n' then [c] else []
    | .block => []
  | c :: next :: rest =>
    match mode with
    | .code =>
      if c = '/' && next = '*' && rest.head? ≠ some '!' then strip lang .block c rest
      else if c = '/' && next = '/' && lang = .script && prev ≠ ':' then
        strip lang .line c (next :: rest)
      else if lang.isDelimiter c then c :: strip lang (.literal c) c (next :: rest)
      else c :: strip lang .code c (next :: rest)
    | .literal delimiter =>
      if c = '\x5c' then c :: next :: strip lang (.literal delimiter) c rest
      else if c = delimiter then c :: strip lang .code c (next :: rest)
      else c :: strip lang (.literal delimiter) c (next :: rest)
    | .line =>
      if c = '\n' then c :: strip lang .code c (next :: rest) else strip lang .line c (next :: rest)
    | .block =>
      if c = '*' && next = '/' then strip lang .code c rest
      else strip lang .block c (next :: rest)

/-- Removes white space at the end of lines, and blank lines. -/
def tidy (text : List Char) : List Char :=
  ((Text.Chars.lines text).map (Text.Chars.trimTail Text.isBlank)).flatMap fun line =>
    if line.isEmpty then [] else line ++ ['\n']

/-- Minifies a text. -/
def apply (lang : Minify) (source : String) : String :=
  .ofList (tidy (strip lang .code '\n' source.toList))

end Minify

end RequestRouting
