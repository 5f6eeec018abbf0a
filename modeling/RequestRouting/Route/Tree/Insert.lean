import RequestRouting.Route.Tree

/-!
# Adding patterns to trees

A pattern is added to a tree where the bytes it shares with other patterns end. It's refused where
it couldn't be told apart from another pattern, and where it isn't well-formed. What was added to
the tree up to there is kept.
-/

namespace RequestRouting

namespace Pattern

/-- Splits the bytes a lead shares with a pattern from what follows in the lead and the pattern. -/
def share : List UInt8 → List Symbol → List UInt8 × List UInt8 × List Symbol
  | l :: lead, .byte b :: rest =>
    if l = b then
      let (shared, lead, rest) := share lead rest
      (l :: shared, lead, rest)
    else ([], l :: lead, .byte b :: rest)
  | lead, rest => ([], lead, rest)

/-- The bytes a pattern starts with. -/
def bytes : List Symbol → List UInt8
  | .byte b :: rest => b :: bytes rest
  | _ => []

/-- The symbols up to the first slash, which is included. -/
def segment (symbols : List Symbol) : List Symbol := through (.byte slash) symbols

/-- The symbols after the first one that takes text. -/
def afterWild (symbols : List Symbol) : List Symbol := (symbols.dropWhile (!·.isWild)).drop 1

/-- Whether symbols are more than a slash. -/
def isText (symbols : List Symbol) : Bool := symbols ≠ [] && symbols ≠ [.byte slash]

end Pattern

namespace RouteTree

open Pattern (Symbol)

variable {α : Type}

/-- A tree or a part of it, as it is after a pattern was added or refused. -/
abbrev Added (β : Type) := β × Except PatternError Unit

/-- Puts a tree behind all branches. -/
def Branches.append (key : UInt8) (tree : RouteTree α) : Branches α → Branches α
  | .nil => .cons key tree .nil
  | .cons k t others => .cons k t (others.append key tree)

/-- Puts an ending before those that are shorter. -/
def Branches.place (key : UInt8) (tree : RouteTree α) : Branches α → Branches α
  | .nil => .cons key tree .nil
  | .cons k t others =>
    if t.lead.length < tree.lead.length then .cons key tree (.cons k t others)
    else .cons k t (others.place key tree)

/-- Puts a tree in front of branches, or behind the first one if that is heavier. -/
def Branches.push (key : UInt8) (tree : RouteTree α) : Branches α → Branches α
  | .nil => .cons key tree .nil
  | .cons k t others =>
    if tree.weight < t.weight then .cons k t (.cons key tree others)
    else .cons key tree (.cons k t others)

/-- A tree with another lead. -/
def withLead (lead : List UInt8) : RouteTree α → RouteTree α
  | .node _ leaf weight branches wild => .node lead leaf weight branches wild

/-- A tree with another weight. -/
def withWeight (weight : Nat) : RouteTree α → RouteTree α
  | .node lead leaf _ branches wild => .node lead leaf weight branches wild

/-- The tree of what follows in a pattern below the given ending. It's a branch if it starts with a
byte. -/
def under (ending : List UInt8) (symbols : List Symbol) (tree : RouteTree α) : RouteTree α :=
  match symbols with
  | .byte b :: _ => .node ending none 1 (.cons b tree .nil) .nothing
  | _ => tree.withLead ending

/-- The tree of a single pattern, given the symbols that are left of it. A segment has one parameter
at most, and nothing follows a catch-all. -/
def grow (leaf : Leaf α) (symbols : List Symbol) : Added (RouteTree α) :=
  let lead := Pattern.bytes symbols
  match _h : symbols.drop lead.length with
  | [] => (.node lead leaf 1 .nil .nothing, .ok ())
  | .catchAll name :: rest =>
    if rest.isEmpty then (.node lead none 1 .nil (.catchAll name leaf), .ok ())
    else (.node [] none 1 .nil .nothing, .error .misplacedCatchAll)
  | _ :: rest =>
    let ending := Pattern.segment rest
    if ending.any Symbol.isWild then (.node lead none 1 .nil .nothing, .error .severalParameters)
    else if ending.isEmpty then (.node lead none 1 .nil (.param leaf .nil), .ok ())
    else
      let below := rest.drop ending.length
      let (tree, result) := grow leaf below
      let bytes := Pattern.bytes ending
      let endings := .cons (bytes.headD Pattern.slash) (under bytes below tree) .nil
      (.node lead none 1 .nil (.param none endings), result)
  termination_by symbols.length
  decreasing_by
    have := congrArg List.length ‹_›
    simp only [List.length_drop, List.length_cons] at this ⊢
    omega

/-- Where a pattern is added: the symbols that lead there, including the lead of the tree, and what
was there before. -/
structure Place where
  before : List Symbol
  /-- Whether a segment starts there. -/
  isFresh : Bool
  /-- Whether a parameter has text before it there. -/
  hasTextBefore : Bool
  /-- Whether a parameter has text after it there. -/
  hasTextAfter : Bool
  /-- The first pattern there. -/
  first : String

/-- The end of the lead of a tree as a place, given the symbols that lead to the tree. -/
def place (before : List Symbol) (tree : RouteTree α) : Place :=
  let before := before ++ tree.lead.map .byte
  let (symbols, names) := tree.way
  { before
    isFresh := tree.lead.getLast? = some Pattern.slash
    hasTextBefore := tree.hasTextBefore
    hasTextAfter := tree.hasTextAfter
    first := Pattern.textOf names (before ++ symbols) }

/-- Whether a pattern that starts with a byte can't be told apart from those in a place: if it takes
text in this segment, no parameter has text after it there, and if there is text after what it
takes, no parameter has text before it. -/
def Place.refusesBranch (p : Place) (symbols : List Symbol) : Bool :=
  let segment := symbols.takeWhile (· ≠ .byte Pattern.slash)
  segment.any Symbol.isWild &&
    (p.hasTextAfter || (!(Pattern.afterWild segment).isEmpty && p.hasTextBefore))

/-- Whether a pattern that starts with what takes text can't be told apart from those in a place,
where no text is taken yet. -/
def Place.refusesWild (p : Place) (symbols : List Symbol) : Bool :=
  (Pattern.isText (Pattern.afterWild symbols) && p.hasTextBefore) || (!p.isFresh && p.hasTextAfter)

/-- Adds a pattern to a tree at the end of its lead, where nothing shares its next symbol. -/
def extend (before : List Symbol) (leaf : Leaf α) (symbols : List Symbol) :
    RouteTree α → Added (RouteTree α)
  | .node lead own weight branches wild =>
    let tree : RouteTree α := .node lead own weight branches wild
    let place := tree.place before
    match symbols with
    | [] => (.node lead leaf weight branches wild, .ok ())
    | .byte b :: _ =>
      if place.refusesBranch symbols then (tree, .error (.conflict place.first))
      else
        let (branch, result) := grow leaf symbols
        (.node lead own weight (branches.append b branch) wild, result)
    | _ =>
      if place.refusesWild symbols then (tree, .error (.conflict place.first))
      else
        let (shoot, result) := grow leaf symbols
        (.node lead own weight branches shoot.wild, result)

/-- Adds a pattern that ends where another one may end. -/
def settle (before symbols : List Symbol) (leaf : Leaf α) : Option (Leaf α) → Added (Option (Leaf α))
  | some other => (other, .error (.conflict (Pattern.textOf other.names (before ++ symbols))))
  | none => (leaf, .ok ())

mutual

/-- Adds a pattern to a tree, given the symbols that lead to the tree. -/
def insert (before : List Symbol) (leaf : Leaf α) :
    RouteTree α → List Symbol → Added (RouteTree α)
  | .node lead own weight branches wild, symbols =>
    match Pattern.share lead symbols with
    | (shared, b :: lower, symbols) =>
      let branch : RouteTree α := .node (b :: lower) own weight branches wild
      extend before leaf symbols (.node shared none (weight + 1) (.cons b branch .nil) .nothing)
    | (_, [], symbols) =>
      let tree : RouteTree α := .node lead own (weight + 1) branches wild
      let place := tree.place before
      match symbols with
      | [] =>
        let (own, result) := settle place.before [] leaf own
        (.node lead own (weight + 1) branches wild, result)
      | .byte b :: _ =>
        match branches.insert? place.before leaf b symbols with
        | some (branches, result) => (.node lead own (weight + 1) branches wild, result)
        | none => extend before leaf symbols tree
      | _ =>
        match wild.insert? place leaf symbols with
        | some (wild, result) => (.node lead own (weight + 1) branches wild, result)
        | none => extend before leaf symbols tree

/-- Adds a pattern to the branch with the given key. -/
def Branches.insert? (before : List Symbol) (leaf : Leaf α) :
    Branches α → UInt8 → List Symbol → Option (Added (Branches α))
  | .nil, _, _ => none
  | .cons key tree others, b, symbols =>
    if key = b then
      let (tree, result) := tree.insert before leaf symbols
      some (.cons key tree others, result)
    else
      (others.insert? before leaf b symbols).map fun (others, result) =>
        (others.push key tree, result)

/-- Adds a pattern where text is taken, unless none is taken yet. A catch-all shares its place with
nothing else, and a parameter with text before and after it doesn't share its place with one that
has text before it only. -/
def Wild.insert? (place : Place) (leaf : Leaf α) :
    Wild α → List Symbol → Option (Added (Wild α))
  | .nothing, _ => none
  | .param own endings, .param :: rest =>
    let wild : Wild α := .param own endings
    if !place.isFresh && wild.hasTextAfter && !Pattern.isText rest then
      some (wild, .error (.conflict place.first))
    else if rest.isEmpty then
      let (own, result) := settle place.before [.param] leaf own
      some (.param own endings, result)
    else match endings.insertEnding? (place.before ++ [.param]) leaf rest with
      | some (endings, result) => some (.param own endings, result)
      | none =>
        if Pattern.isText (Pattern.segment rest) && place.hasTextBefore then
          some (wild, .error (.conflict place.first))
        else
          match grow leaf (.param :: rest) with
          | (.node _ _ _ _ (.param _ (.cons key tree _)), result) =>
            some (.param own (endings.place key tree), result)
          | (_, result) => some (wild, result)
  | .param own endings, _ =>
    let (way, names) := (Wild.way? (.param own endings)).getD ([], [])
    some (.param own endings, .error (.conflict (Pattern.textOf names (place.before ++ way))))
  | .catchAll name own, _ =>
    let text := Pattern.textOf own.names (place.before ++ [.catchAll name])
    some (.catchAll name own, .error (.conflict text))

/-- Adds a pattern to the ending it goes on with. -/
def Branches.insertEnding? (before : List Symbol) (leaf : Leaf α) :
    Branches α → List Symbol → Option (Added (Branches α))
  | .nil, _ => none
  | .cons key tree others, symbols =>
    if tree.lead.map .byte = Pattern.segment symbols then
      let (tree, result) := tree.insert before leaf symbols
      some (.cons key tree others, result)
    else
      (others.insertEnding? before leaf symbols).map fun (others, result) =>
        (.cons key tree others, result)

end

end RouteTree

end RequestRouting
