/-!
# Patterns

A pattern describes paths piece by piece: characters that stand for themselves, parameters that
take the non-empty text up to the end of a segment or up to a fixed end of it, and a final parameter
that takes everything that is left.
-/

namespace RequestRouting

/-- Why a pattern can't be added to a table. -/
inductive PatternError where
  | conflict (other : String)
  | severalParameters
  | unnamedParameter
  | misplacedCatchAll
  deriving DecidableEq, Repr

def PatternError.message : PatternError → String
  | conflict other => "Insertion failed due to conflict with previously registered route: " ++ other
  | severalParameters => "Only one parameter is allowed per path segment"
  | unnamedParameter => "Parameters must be registered with a valid name"
  | misplacedCatchAll => "Catch-all parameters are only allowed at the end of a route"

namespace Pattern

/-- A token of a pattern: a character, or a name in braces. -/
inductive Token where
  | char (c : Char)
  | name (name : List Char)
  deriving DecidableEq, Repr

/-- Reads a name up to its closing brace. After its first character, a name holds neither stars nor
slashes. -/
def readName : List Char → Option (List Char × List Char)
  | [] => none
  | c :: rest =>
    if c = '\x7d' then some ([], rest)
    else if c = '*' || c = '/' then none
    else (readName rest).map fun (name, rest) => (c :: name, rest)

/-- Reads a non-empty name up to its closing brace. A lone star isn't a name. -/
def readFullName (s : List Char) : Option (List Char × List Char) :=
  match s with
  | [] => none
  | c :: rest =>
    if c = '\x7d' then none
    else match readName rest with
      | some (name, rest) => if c = '*' && name.isEmpty then none else some (c :: name, rest)
      | none => none

theorem length_of_readName {s name rest : List Char} (h : readName s = some (name, rest)) :
    rest.length < s.length := by
  induction s generalizing name rest with
  | nil => simp [readName] at h
  | cons c s ih =>
    simp only [readName] at h
    split at h
    · simp_all
    · split at h
      · simp at h
      · simp only [Option.map_eq_some_iff, Prod.exists, Prod.mk.injEq] at h
        obtain ⟨n, r, hn, -, rfl⟩ := h
        have := ih hn
        simp only [List.length_cons]
        omega

theorem length_of_readFullName {s name rest : List Char}
    (h : readFullName s = some (name, rest)) : rest.length < s.length := by
  unfold readFullName at h
  split at h
  · simp at h
  · split at h
    · simp at h
    · split at h
      · rename_i hn
        have hl := length_of_readName hn
        split at h
        · cases h
        · obtain ⟨-, rfl⟩ := Prod.mk.inj (Option.some.inj h)
          exact Nat.lt_succ_of_lt hl
      · simp at h

/-- Splits a pattern into tokens, unless a name is malformed. -/
def tokens : List Char → Option (List Token)
  | [] => some []
  | c :: rest =>
    if c = '\x7b' then
      match _h : readFullName rest with
      | some (name, rest') => (tokens rest').map (.name name :: ·)
      | none => none
    else if c = '\x7d' then none
    else (tokens rest).map (.char c :: ·)
  termination_by s => s.length
  decreasing_by
    · have := length_of_readFullName ‹_›
      simp only [List.length_cons]
      omega
    · simp

/-- A piece of a pattern. The text after a parameter up to the next slash belongs to its piece. -/
inductive Piece where
  | char (c : Char)
  | param (name : List Char) (ending : List Token)
  | catchAll (name : List Char) (after : List Token)
  deriving DecidableEq, Repr

/-- Groups tokens into pieces. -/
def pieces : List Token → List Piece
  | [] => []
  | .char c :: rest => .char c :: pieces rest
  | .name ('*' :: name) :: rest => [.catchAll name rest]
  | .name name :: rest =>
    .param name (rest.takeWhile (· ≠ .char '/')) :: pieces (rest.dropWhile (· ≠ .char '/'))
  termination_by tokens => tokens.length
  decreasing_by
    · simp
    · have := (List.dropWhile_sublist (· ≠ Token.char '/') (l := rest)).length_le
      simp only [List.length_cons]
      omega

/-- Whether a token is a character. -/
def Token.isChar : Token → Bool
  | .char _ => true
  | .name _ => false

/-- The first piece that isn't allowed decides on the error: a segment holds one parameter at most,
and nothing follows a catch-all. -/
def check : List Piece → Except PatternError Unit
  | [] => .ok ()
  | .char _ :: rest => check rest
  | .param _ ending :: rest =>
    if ending.all Token.isChar then check rest else .error .severalParameters
  | .catchAll _ after :: _ => if after.isEmpty then .ok () else .error .misplacedCatchAll

/-- The characters of a list of tokens. -/
def characters (tokens : List Token) : List Char :=
  tokens.filterMap fun
    | .char c => some c
    | .name _ => none

/-- Whether a parameter with the given ending takes a segment, leaving some text for its value. -/
def fits (ending : List Token) (segment : List Char) : Bool :=
  let tail := characters ending
  tail.length < segment.length && segment.drop (segment.length - tail.length) = tail

/-- Matches a path, yielding the values of the parameters in order. -/
def resolve? : List Piece → List Char → Option (List (String × String))
  | [], path => if path.isEmpty then some [] else none
  | .char c :: rest, path =>
    match path with
    | d :: path => if c = d then resolve? rest path else none
    | [] => none
  | .param name ending :: rest, path =>
    let segment := path.takeWhile (· ≠ '/')
    if fits ending segment then
      (resolve? rest (path.dropWhile (· ≠ '/'))).map
        ((.ofList name, .ofList (segment.take (segment.length - (characters ending).length))) :: ·)
    else none
  | .catchAll name _ :: _, path =>
    if path.isEmpty then none else some [(.ofList name, .ofList path)]

/-- Whether no pattern can go on where this one ends: after a catch-all, or after text that ends a
segment with a parameter which has text before it, too. -/
def isClosed (pieces : List Piece) : Bool :=
  match pieces.reverse with
  | .catchAll _ _ :: _ => true
  | .param _ ending :: .char c :: _ => !ending.isEmpty && c ≠ '/'
  | _ => false

end Pattern

end RequestRouting
