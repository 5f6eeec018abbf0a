import RequestRouting.Http.Message

/-!
# URI templates

A template is text with variables in braces, which are replaced by values of a request. A brace that
isn't closed is text, and values that were inserted aren't scanned for variables.
-/

namespace RequestRouting

/-- A part of a template. -/
inductive Template.Part where
  | literal (text : List Char)
  | variable (name : List Char)
  deriving DecidableEq, Repr

/-- A template, as its parts in order. -/
structure Template where
  parts : List Template.Part
  deriving DecidableEq, Repr

namespace Template

/-- Puts a character in front of the parts, extending the literal they start with. -/
def push (c : Char) : List Part → List Part
  | .literal text :: rest => .literal (c :: text) :: rest
  | rest => .literal [c] :: rest

theorem length_of_cut? {mark : Char} {s before after : List Char}
    (h : Text.Chars.cut? mark s = some (before, after)) : after.length < s.length := by
  induction s generalizing before after with
  | nil => simp [Text.Chars.cut?] at h
  | cons c s ih =>
    simp only [Text.Chars.cut?] at h
    split at h
    · simp_all
    · simp only [Option.map_eq_some_iff, Prod.exists, Prod.mk.injEq] at h
      obtain ⟨b, a, hs, -, rfl⟩ := h
      have := ih hs
      simp only [List.length_cons]
      omega

/-- Splits a text into parts. The first brace that isn't closed makes everything from it on text. -/
def split : List Char → List Part
  | [] => []
  | c :: rest =>
    if c = '\x7b' then
      match _h : Text.Chars.cut? '\x7d' rest with
      | some (name, rest') => .variable name :: split rest'
      | none => [.literal (c :: rest)]
    else push c (split rest)
  termination_by s => s.length
  decreasing_by
    · have := length_of_cut? ‹_›
      simp only [List.length_cons]
      omega
    · simp

/-- Reads a template. -/
def parse (text : String) : Template := ⟨split text.toList⟩

/-- The text of a part. -/
def Part.text : Part → List Char
  | .literal text => text
  | .variable name => '\x7b' :: name ++ ['\x7d']

/-- The text of a template. -/
def text (t : Template) : String := .ofList (t.parts.flatMap Part.text)

/-- The value of a variable: the reference, path, query or host of the request for the names `ri`,
`rp`, `rq` and `rh`, and an attribute for any other name. -/
def value (req : Request) (name : String) : String :=
  if name = "ri" then req.reference
  else if name = "rp" then req.uri.path
  else if name = "rq" then req.uri.query.getD ""
  else if name = "rh" then (req.headers.get? .host).getD ""
  else (req.attributes.get? name).getD ""

/-- The text a part expands to. -/
def Part.expand (req : Request) : Part → List Char
  | .literal text => text
  | .variable name => (value req (.ofList name)).toList

/-- Replaces all variables by their values. -/
def expand (t : Template) (req : Request) : String :=
  .ofList (t.parts.flatMap (Part.expand req))

/-- Whether there are variables. -/
def hasVariables (t : Template) : Bool :=
  t.parts.any fun
    | .variable _ => true
    | .literal _ => false

end Template

end RequestRouting
