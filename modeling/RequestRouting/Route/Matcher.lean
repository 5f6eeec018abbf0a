import RequestRouting.Route.Basic
import RequestRouting.Route.Pattern

/-!
# Matchers

The matcher of a route tells which paths the route matches, and the values of its variables there.
A route is matched by one of its patterns, no two of which match the same path.
-/

namespace RequestRouting

/-- Why a route can't be matched. -/
inductive MatcherError where
  | route (error : RouteError)
  | pattern (error : PatternError)
  deriving DecidableEq, Repr

def MatcherError.message : MatcherError → String
  | route error => error.message
  | pattern error => error.message

/-- The matcher of a route, which holds the patterns of the route in pieces. -/
structure RouteMatcher where
  forms : List (List Pattern.Piece)
  deriving DecidableEq

namespace Pattern

/-- Reads a pattern in pieces. -/
def read (text : String) : Except PatternError (List Piece) := do
  let some tokens := tokens text.toList | .error .unnamedParameter
  let pieces := pieces tokens
  check pieces
  .ok pieces

end Pattern

namespace Route

/-- The matcher of a route. The patterns of a prefix route go on where its path ends. -/
def matcher (r : Route) : Except MatcherError RouteMatcher :=
  Except.mapError .pattern do
    let pieces ← Pattern.read r.path
    if r.isPrefixRoute && Pattern.isClosed pieces then .error (.conflict r.path)
    else return ⟨← r.patterns.mapM Pattern.read⟩

/-- The rest of the path after the prefix matched by a prefix route, given the values of its
variables. -/
def remainder? (values : List (String × String)) : Option String :=
  (values.find? (·.1 = remainder)).map (·.2)

end Route

namespace RouteMatcher

/-- Matches a path, yielding the values of the variables in order. -/
def resolve? (m : RouteMatcher) (path : String) : Option (List (String × String)) :=
  m.forms.findSome? (Pattern.resolve? · path.toList)

/-- Whether a path is matched. -/
def accepts (m : RouteMatcher) (path : String) : Bool := (m.resolve? path).isSome

end RouteMatcher

end RequestRouting
