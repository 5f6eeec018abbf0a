import RequestRouting.Text.Cut

/-!
# Routes

A route is a template for request paths. It starts with a slash and holds variables in braces. An
exact route matches whole paths, while a prefix route, written with a star at its end, matches the
template and everything below it.
-/

namespace RequestRouting

/-- The text without slashes that repeat the one before them. The flag tells whether a slash came
before the text. -/
def collapse : Bool → List Char → List Char
  | _, [] => []
  | slash, c :: rest =>
    if c = '/' then if slash then collapse true rest else '/' :: collapse true rest
    else c :: collapse false rest

/-- Cleans a URI: it starts with a slash, and no slash repeats the one before it. -/
def clean (uri : String) : String := .ofList ('/' :: collapse true uri.toList)

/-- Why a text is no route. -/
inductive RouteError where
  | empty
  | relative (path : String)
  | template (path : String)
  deriving DecidableEq, Repr

def RouteError.message : RouteError → String
  | empty => "route is empty"
  | relative path => "route must start with '/': " ++ path
  | template path => "route contains malformed variables: " ++ path

/-- Which paths a route matches. -/
inductive Matching where
  /-- The route matches the entire path. -/
  | exact
  /-- The route matches a prefix of the path. -/
  | startsWith
  deriving DecidableEq, Repr

/-- A route: a template for paths, and how it's matched. -/
structure Route where
  path : String
  matching : Matching
  deriving DecidableEq, Repr

namespace Route

/-- The variable holding what follows the prefix matched by a prefix route. -/
def remainder : String := "rr"

/-- Where a scan for variables stands. -/
inductive Scan where
  | outside
  | opened
  | named

/-- Whether the braces form pairs around names that hold no braces. -/
def balanced : Scan → List Char → Bool
  | .outside, [] => true
  | _, [] => false
  | scan, c :: rest =>
    if c = '\x7b' then
      match scan with
      | .outside => balanced .opened rest
      | _ => false
    else if c = '\x7d' then
      match scan with
      | .named => balanced .outside rest
      | _ => false
    else
      match scan with
      | .outside => balanced .outside rest
      | _ => balanced .named rest

/-- Creates a route, unless the path is no template. -/
def ofPath (path : String) (matching : Matching) : Except RouteError Route :=
  if path.isEmpty then .error .empty
  else if !Text.startsWith "/" path then .error (.relative path)
  else if !balanced .outside path.toList then .error (.template path)
  else .ok ⟨path, matching⟩

/-- Reads a route. A star at the end makes it a prefix route. -/
def parse (text : String) : Except RouteError Route :=
  match Text.dropTail? "*" text with
  | some path => if path.isEmpty then .error .empty else ofPath path .startsWith
  | none => ofPath text .exact

/-- The text of a route, which is read as the same route again. -/
def text (r : Route) : String :=
  match r.matching with
  | .exact => r.path
  | .startsWith => r.path ++ "*"

/-- The pattern that matches any text that is left. -/
def catchAll : String := "\x7b*" ++ remainder ++ "\x7d"

/-- The patterns that implement a route. A prefix that ends in a variable is matched on segment
boundaries only. -/
def patterns (r : Route) : List String :=
  match r.matching with
  | .exact => [r.path]
  | .startsWith =>
    if Text.endsWith "\x7d" r.path then [r.path, r.path ++ "/", r.path ++ "/" ++ catchAll]
    else [r.path, r.path ++ catchAll]

/-- The names of the variables, in order. -/
def variableNames (r : Route) : List String :=
  ((Text.pieces '\x7b' r.path).drop 1).filterMap fun piece =>
    (Text.cut? '\x7d' piece).map (·.1)

/-- The number of characters outside of braces, below the given number of open ones. -/
def literals : Nat → List Char → Nat
  | _, [] => 0
  | depth, c :: rest =>
    if c = '\x7b' then literals (depth + 1) rest
    else if c = '\x7d' then literals (depth - 1) rest
    else (if depth = 0 then 1 else 0) + literals depth rest

/-- The number of characters outside of variables. -/
def literalLength (r : Route) : Nat := literals 0 r.path.toList

/-- Whether a prefix of the path is matched. -/
def isPrefixRoute (r : Route) : Bool := r.matching = .startsWith

end Route

end RequestRouting
