import RequestRouting.Route.Pattern
import RequestRouting.Text.Utf8

/-!
# Trees of patterns

A tree of patterns shares the bytes that patterns begin with. Every tree holds the bytes that lead
to it, what ends there, branches told apart by their first byte, and at most one way to take text
that isn't written in the pattern: a parameter, with its endings, or a catch-all.

Parts of a pattern may be left in a tree without anything ending in them, namely where the pattern
was refused after it was read in part.
-/

namespace RequestRouting

namespace Pattern

/-- A part of a pattern in a tree, where parameters have no names. -/
inductive Symbol where
  | byte (b : UInt8)
  | param
  | catchAll (name : String)
  deriving DecidableEq, Repr

/-- The slash, which ends a segment. -/
def slash : UInt8 := 0x2F

/-- The items up to the first one that equals the mark, which is included. -/
def through {β : Type} [DecidableEq β] (mark : β) (items : List β) : List β :=
  items.takeWhile (· ≠ mark) ++ (items.dropWhile (· ≠ mark)).take 1

/-- Whether a symbol takes text that isn't written in the pattern. -/
def Symbol.isWild : Symbol → Bool
  | .byte _ => false
  | .param | .catchAll _ => true

/-- The symbols of a token. -/
def symbolsOf : Token → List Symbol
  | .char c => (String.utf8EncodeChar c).map .byte
  | .name ('*' :: name) => [.catchAll (.ofList name)]
  | .name _ => [.param]

/-- The symbols of a pattern. -/
def symbols (tokens : List Token) : List Symbol := tokens.flatMap symbolsOf

/-- The names of the parameters of a pattern, catch-alls aside. -/
def names (tokens : List Token) : List String :=
  tokens.filterMap fun
    | .char _ => none
    | .name ('*' :: _) => none
    | .name name => some (.ofList name)

/-- The name that stands for the parameter with the given number. -/
def placeholder (number : Nat) : String := .singleton (.ofNat ('a'.toNat + number))

/-- The bytes of a text in braces. -/
def braced (text : String) : List UInt8 :=
  Text.Utf8.encode ('\x7b' :: text.toList ++ ['\x7d'])

/-- The bytes of symbols, starting at the parameter with the given number. Parameters that have no
name are shown by a placeholder. -/
def spell : Nat → List String → List Symbol → List UInt8
  | _, _, [] => []
  | number, names, .byte b :: rest => b :: spell number names rest
  | number, names, .param :: rest =>
    braced (names.headD (placeholder number)) ++ spell (number + 1) names.tail rest
  | number, names, .catchAll name :: rest => braced ("*" ++ name) ++ spell number names rest

/-- The text of a pattern, given its symbols and the names of its parameters. -/
def textOf (names : List String) (symbols : List Symbol) : String :=
  .ofList (Text.Utf8.decodeLenient (spell 0 names symbols))

end Pattern

/-- What a pattern ends in: its value, and the names of its parameters. -/
structure RouteTree.Leaf (α : Type) where
  value : α
  names : List String

mutual

/-- A tree of patterns. Its weight counts how often it was entered to add a pattern. -/
inductive RouteTree (α : Type) where
  | node (lead : List UInt8) (leaf : Option (RouteTree.Leaf α)) (weight : Nat)
      (branches : RouteTree.Branches α) (wild : RouteTree.Wild α)

/-- Trees with the bytes they are told apart by, which are their first ones. -/
inductive RouteTree.Branches (α : Type) where
  | nil
  | cons (key : UInt8) (tree : RouteTree α) (others : RouteTree.Branches α)

/-- What takes text that isn't written in a pattern. The text a parameter takes is followed by one
of its endings, the longest of which come first, or by nothing. -/
inductive RouteTree.Wild (α : Type) where
  | nothing
  | param (leaf : Option (RouteTree.Leaf α)) (endings : RouteTree.Branches α)
  | catchAll (name : String) (leaf : RouteTree.Leaf α)

end

/-- A pattern found in a tree, with what its parameters and its catch-all take. -/
structure RouteTree.Found (α : Type) where
  leaf : RouteTree.Leaf α
  taken : List (List UInt8) := []
  rest : List (String × List UInt8) := []

namespace RouteTree

variable {α : Type}

/-- The tree without patterns. -/
def empty : RouteTree α := .node [] none 0 .nil .nothing

/-- The bytes that lead to a tree. -/
def lead : RouteTree α → List UInt8
  | .node lead _ _ _ _ => lead

def weight : RouteTree α → Nat
  | .node _ _ weight _ _ => weight

/-- What takes text in a tree. -/
def wild : RouteTree α → Wild α
  | .node _ _ _ _ wild => wild

/-- The names of a leaf, none if there is no leaf. -/
def namesOf (leaf : Option (Leaf α)) : List String := (leaf.map (·.names)).getD []

/-- What is left of the first segment of a path, with its slash, before an ending that fits, unless
that's nothing. -/
def before? (ending segment : List UInt8) : Option (List UInt8) :=
  let taken := segment.take (segment.length - ending.length)
  if !taken.isEmpty && taken ++ ending = segment then some taken else none

/-- Adds what a parameter takes to what is taken after it. -/
def Found.take (taken : List UInt8) (found : Found α) : Found α :=
  { found with taken := taken :: found.taken }

mutual

/-- Finds the pattern that matches a path. Branches are preferred to what takes text, which is
tried if nothing matches in the branch. -/
def find? : RouteTree α → List UInt8 → Option (Found α)
  | .node lead leaf _ branches wild, path =>
    match lead.isPrefixOf? path with
    | none => none
    | some [] => leaf.map fun leaf => { leaf }
    | some (b :: rest) =>
      match branches.find? b (b :: rest) with
      | some found => some found
      | none => wild.find? (b :: rest)

/-- Finds the pattern that matches a path in the branch with the given key. -/
def Branches.find? : Branches α → UInt8 → List UInt8 → Option (Found α)
  | .nil, _, _ => none
  | .cons key tree others, b, path =>
    if key = b then tree.find? path else others.find? b path

/-- Finds the pattern that matches a path where text is taken. -/
def Wild.find? : Wild α → List UInt8 → Option (Found α)
  | .nothing, _ => none
  | .param leaf endings, path =>
    if path.takeWhile (· ≠ Pattern.slash) = [] then none else endings.settle? leaf path
  | .catchAll name leaf, path => some { leaf, rest := [(name, path)] }

/-- Finds the pattern that matches a path after a parameter. The parameter settles on the first
ending that fits, even if nothing matches after it. If none does, the parameter takes the entire
path, unless there is a slash in it. -/
def Branches.settle? : Branches α → Option (Leaf α) → List UInt8 → Option (Found α)
  | .nil, leaf, path =>
    if path.contains Pattern.slash then none
    else leaf.map fun leaf => { leaf, taken := [path] }
  | .cons _ tree others, leaf, path =>
    match before? tree.lead (Pattern.through Pattern.slash path) with
    | some taken => (tree.find? (path.drop taken.length)).map (·.take taken)
    | none => others.settle? leaf path

end

mutual

/-- Whether text is taken by a parameter before the first slash. -/
def takesInSegment : RouteTree α → Bool
  | .node lead _ _ branches wild =>
    !lead.contains Pattern.slash && (wild.isParam || branches.anyTakes)

/-- Whether text is taken by a parameter in a branch before its first slash. -/
def Branches.anyTakes : Branches α → Bool
  | .nil => false
  | .cons _ tree others => tree.takesInSegment || others.anyTakes

/-- Whether text is taken by a parameter. -/
def Wild.isParam : Wild α → Bool
  | .param _ _ => true
  | .nothing | .catchAll _ _ => false

end

mutual

/-- Whether a parameter has text before it in its segment, as far as the tree is searched: a lead
that ends in a slash is passed, and what comes after it may belong to a later segment. -/
def hasTextBefore : RouteTree α → Bool
  | .node lead _ _ branches wild =>
    if lead.getLast? = some Pattern.slash then branches.anyTextBefore
    else wild.isParam || branches.anyTakes

/-- Whether a parameter in a branch has text before it. -/
def Branches.anyTextBefore : Branches α → Bool
  | .nil => false
  | .cons _ tree others => tree.hasTextBefore || others.anyTextBefore

end

/-- Whether one of the endings of a parameter is more than a slash. -/
def Branches.haveText : Branches α → Bool
  | .nil => false
  | .cons _ tree others => tree.lead ≠ [Pattern.slash] || others.haveText

/-- Whether text is taken by a parameter that has text after it. -/
def Wild.hasTextAfter : Wild α → Bool
  | .param _ endings => endings.haveText
  | .nothing | .catchAll _ _ => false

mutual

/-- Whether a parameter has text after it, in the segment a tree ends in. -/
def hasTextAfter : RouteTree α → Bool
  | .node _ _ _ branches wild => wild.hasTextAfter || branches.anyTextAfter

/-- Whether a parameter in a branch before its first slash has text after it. -/
def Branches.anyTextAfter : Branches α → Bool
  | .nil => false
  | .cons _ tree others =>
    (!tree.lead.contains Pattern.slash && tree.hasTextAfter) || others.anyTextAfter

end

mutual

/-- The first way from a tree to its bottom, with the names of the parameters where it ends. -/
def way : RouteTree α → List Pattern.Symbol × List String
  | .node _ leaf _ branches wild =>
    match branches.way? with
    | some way => way
    | none =>
      match wild.way? with
      | some way => way
      | none => ([], namesOf leaf)

/-- The way through the first branch. -/
def Branches.way? : Branches α → Option (List Pattern.Symbol × List String)
  | .nil => none
  | .cons _ tree _ =>
    let (symbols, names) := tree.way
    some (tree.lead.map .byte ++ symbols, names)

/-- The way through what takes text. -/
def Wild.way? : Wild α → Option (List Pattern.Symbol × List String)
  | .nothing => none
  | .param leaf endings =>
    match endings.way? with
    | some (symbols, names) => some (.param :: symbols, names)
    | none => some ([.param], namesOf leaf)
  | .catchAll name leaf => some ([.catchAll name], leaf.names)

end

end RouteTree

end RequestRouting
