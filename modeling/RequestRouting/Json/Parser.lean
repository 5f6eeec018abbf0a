import RequestRouting.Json.Number

/-!
# Reading JSON text

Reading follows the grammar strictly, and refuses values nested more than 127 deep, strings with
unescaped control characters, and escapes of lone surrogates. The keys of objects can also be read
as they are written, with their escapes.
-/

namespace RequestRouting.Json

/-- White space between the tokens. -/
def isSpace (c : Char) : Bool := c = ' ' || c = '\n' || c = '\t' || c = '\r'

/-- The text after leading white space. -/
def skipSpace (s : List Char) : List Char := s.dropWhile isSpace

/-- The value of four hexadecimal digits. -/
def hex4? : List Char → Option (Nat × List Char)
  | a :: b :: c :: d :: rest => do
    let digit (c : Char) : Option Nat :=
      if c.isDigit then some (c.toNat - 0x30)
      else if 'a' ≤ c && c ≤ 'f' then some (c.toNat - 0x61 + 10)
      else if 'A' ≤ c && c ≤ 'F' then some (c.toNat - 0x41 + 10)
      else none
    let a ← digit a
    let b ← digit b
    let c ← digit c
    let d ← digit d
    some (((a * 16 + b) * 16 + c) * 16 + d, rest)
  | _ => none

/-- Reads what follows `\u`: a code unit, or two code units that form a surrogate pair. -/
def readUnicode (s : List Char) : Option (Char × List Char) := do
  let (high, rest) ← hex4? s
  if 0xDC00 ≤ high && high ≤ 0xDFFF then none
  else if 0xD800 ≤ high && high ≤ 0xDBFF then
    match rest with
    | '\x5c' :: 'u' :: rest =>
      let (low, rest) ← hex4? rest
      if 0xDC00 ≤ low && low ≤ 0xDFFF then
        some (.ofNat (0x10000 + (high - 0xD800) * 0x400 + (low - 0xDC00)), rest)
      else none
    | _ => none
  else some (.ofNat high, rest)

/-- Reads what follows a backslash. -/
def readEscape : List Char → Option (Char × List Char)
  | '\x22' :: rest => some ('\x22', rest)
  | '\x5c' :: rest => some ('\x5c', rest)
  | '/' :: rest => some ('/', rest)
  | 'b' :: rest => some ('\x08', rest)
  | 'f' :: rest => some ('\x0c', rest)
  | 'n' :: rest => some ('\n', rest)
  | 'r' :: rest => some ('\r', rest)
  | 't' :: rest => some ('\t', rest)
  | 'u' :: rest => readUnicode rest
  | _ => none

/-- Reads a string after its opening quote, adding to the characters read so far in reverse. -/
def readString : Nat → List Char → List Char → Option (String × List Char)
  | 0, _, _ => none
  | fuel + 1, read, cs =>
    match cs with
    | [] => none
    | '\x22' :: rest => some (.ofList read.reverse, rest)
    | '\x5c' :: rest =>
      match readEscape rest with
      | some (c, rest) => readString fuel (c :: read) rest
      | none => none
    | c :: rest => if c.toNat < 0x20 then none else readString fuel (c :: read) rest

/-- Whether the keys of objects are read as they're meant, or as they're written. -/
inductive KeyForm where
  | meant
  | written

/-- Reads a key after its opening quote. -/
def readKey (form : KeyForm) (cs : List Char) : Option (String × List Char) :=
  (readString (cs.length + 1) [] cs).map fun (key, rest) =>
    match form with
    | .meant => (key, rest)
    | .written => (.ofList (cs.take (cs.length - rest.length - 1)), rest)

/-- The greatest depth of nested arrays and objects. -/
def maxDepth : Nat := 127

mutual

/-- Reads a value after white space. Every step consumes a character, so the length of the text is
enough fuel. -/
def readValue (form : KeyForm) : Nat → Nat → List Char → Option (Json × List Char)
  | 0, _, _ => none
  | fuel + 1, depth, cs =>
    match skipSpace cs with
    | 'n' :: 'u' :: 'l' :: 'l' :: rest => some (.null, rest)
    | 't' :: 'r' :: 'u' :: 'e' :: rest => some (.bool true, rest)
    | 'f' :: 'a' :: 'l' :: 's' :: 'e' :: rest => some (.bool false, rest)
    | '\x22' :: rest => (readString (rest.length + 1) [] rest).map fun (s, rest) => (.str s, rest)
    | '[' :: rest =>
      if depth = 0 then none
      else match skipSpace rest with
        | ']' :: rest => some (.arr [], rest)
        | rest => (readItems form fuel (depth - 1) [] rest).map fun (items, rest) => (.arr items, rest)
    | '\x7b' :: rest =>
      if depth = 0 then none
      else match skipSpace rest with
        | '\x7d' :: rest => some (.obj [], rest)
        | rest =>
          (readMembers form fuel (depth - 1) [] rest).map fun (members, rest) => (.obj members, rest)
    | rest => (readNumber rest).toOption
  termination_by structural fuel => fuel

/-- Reads the items of an array up to its end, adding to those read so far in reverse. -/
def readItems (form : KeyForm) :
    Nat → Nat → List Json → List Char → Option (List Json × List Char)
  | 0, _, _, _ => none
  | fuel + 1, depth, read, cs =>
    match readValue form fuel depth cs with
    | none => none
    | some (v, rest) =>
      match skipSpace rest with
      | ',' :: rest => readItems form fuel depth (v :: read) rest
      | ']' :: rest => some ((v :: read).reverse, rest)
      | _ => none
  termination_by structural fuel => fuel

/-- Reads the members of an object up to its end, adding to those read so far in reverse. -/
def readMembers (form : KeyForm) :
    Nat → Nat → List (String × Json) → List Char → Option (List (String × Json) × List Char)
  | 0, _, _, _ => none
  | fuel + 1, depth, read, cs =>
    match skipSpace cs with
    | '\x22' :: rest =>
      match readKey form rest with
      | none => none
      | some (k, rest) =>
        match skipSpace rest with
        | ':' :: rest =>
          match readValue form fuel depth rest with
          | none => none
          | some (v, rest) =>
            match skipSpace rest with
            | ',' :: rest => readMembers form fuel depth ((k, v) :: read) rest
            | '\x7d' :: rest => some (((k, v) :: read).reverse, rest)
            | _ => none
        | _ => none
    | _ => none
  termination_by structural fuel => fuel

end

/-- The value of a text that holds nothing else, with keys in the given form. -/
def parseKeys? (form : KeyForm) (s : String) : Option Json :=
  let cs := s.toList
  match readValue form (2 * cs.length + 2) maxDepth cs with
  | some (v, rest) => if (skipSpace rest).isEmpty then some v else none
  | none => none

/-- The value of a text that holds nothing else. -/
def parse? (s : String) : Option Json := parseKeys? .meant s

end RequestRouting.Json
