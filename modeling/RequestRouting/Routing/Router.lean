import RequestRouting.Config.Descriptor
import RequestRouting.Http.Message
import RequestRouting.Route.Matcher

/-!
# Routers

A router selects one of the routes that match the path of a request. By default that is the most
specific one: exact routes come before prefix routes, then those with fewer variables, then those
with more literal characters, and then those declared first.

The variables of the selected route become attributes of the request. The prefix matched by a prefix
route is moved from the path of the request to its base, but only if a segment of the path ends
there. Routes can be hidden from requests that weren't captured.
-/

namespace RequestRouting

/-- A route with its matcher. -/
structure Router.Entry where
  route : Route
  matcher : RouteMatcher
  deriving DecidableEq

/-- A router. Its entries are the routes of its handlers, in the order they were attached in. -/
structure Router where
  mode : RoutingMode := .best
  entries : List Router.Entry := []
  hidden : List Router.Entry := []
  /-- The place of the number of selections made in rotation. -/
  place : Nat := 0

namespace Router

/-- Attaches a route for another handler. -/
def attach (r : Router) (route : Route) : Except MatcherError Router :=
  route.matcher.map fun matcher => { r with entries := r.entries ++ [{ route, matcher }] }

/-- Hides a route. A route that can't be matched hides nothing. -/
def hide (r : Router) (route : Route) : Router :=
  if r.hidden.any (·.route = route) then r
  else match route.matcher with
    | .ok matcher => { r with hidden := r.hidden ++ [{ route, matcher }] }
    | .error _ => r

/-- Whether a path is hidden. -/
def isHidden (r : Router) (path : String) : Bool := r.hidden.any (·.matcher.accepts path)

/-- How specific a route is, the most specific one having the lowest rank. -/
structure Rank where
  isPrefixRoute : Bool
  variableCount : Nat
  literals : Nat
  deriving DecidableEq, Repr

/-- The rank of a route. -/
def Rank.of (route : Route) : Rank where
  isPrefixRoute := route.isPrefixRoute
  variableCount := route.variableNames.length
  literals := route.literalLength

/-- Whether a route with the first rank is preferred over one with the second. -/
def Rank.isBetter (a b : Rank) : Bool :=
  if a.isPrefixRoute ≠ b.isPrefixRoute then b.isPrefixRoute
  else if a.variableCount ≠ b.variableCount then a.variableCount < b.variableCount
  else b.literals < a.literals

/-- The better of two entries with their places, the first unless the second is preferred. -/
def better (a b : Entry × Nat) : Entry × Nat :=
  if (Rank.of b.1.route).isBetter (Rank.of a.1.route) then b else a

/-- The entries that match a path, with their places. -/
def matching (r : Router) (path : String) : List (Entry × Nat) :=
  r.entries.zipIdx.filter fun (entry, _) => entry.matcher.accepts path

/-- Selects one of several matching entries. Those in rotation are counted by `turn`, and those
selected at random are taken by `chance`. -/
def select (mode : RoutingMode) (turn chance : Nat) (first : Entry × Nat)
    (rest : List (Entry × Nat)) : Entry × Nat :=
  let all := first :: rest
  match mode with
  | .best | .custom => rest.foldl better first
  | .first => first
  | .last => all.getLast?.getD first
  | .random => all[chance % all.length]?.getD first
  | .next => all[turn % all.length]?.getD first

/-- Moves the prefix in front of the remainder from the path of a request to its base. -/
def descend (req : Request) (remainder : String) : Request :=
  let path := req.uri.path
  match Text.dropTail? remainder path with
  | none => req
  | some lead =>
    let (lead, rest) := match Text.dropTail? "/" lead with
      | some lead => (lead, "/" ++ remainder)
      | none => (lead, remainder)
    if rest.isEmpty || Text.startsWith "/" rest then
      let base := Text.trimTail (· = '/') ((req.attributes.get? Attribute.base).getD "") ++ lead
      let req := if lead.isEmpty then req else req.set Attribute.base base
      { req with uri.path := rest }
    else req

/-- The request as the handler of a matching entry sees it. -/
def enter (entry : Entry) (req : Request) : Option Request :=
  (entry.matcher.resolve? req.uri.path).map fun values =>
    let req' := req.setAll values
    if entry.route.isPrefixRoute then descend req' ((Route.remainder? values).getD "") else req'

/-- The place of the handler a request is routed to, the request as it sees it, and whether it was
selected in rotation. -/
structure Selection where
  place : Nat
  req : Request
  isTurn : Bool

/-- Routes a request. -/
def route? (r : Router) (turn chance : Nat) (req : Request) : Option Selection :=
  if !req.isInternal && r.isHidden req.uri.path then none
  else match r.matching req.uri.path with
    | [] => none
    | first :: rest =>
      let (entry, place) := select r.mode turn chance first rest
      (enter entry req).map fun req =>
        { place, req, isTurn := r.mode = .next && !rest.isEmpty }

end Router

end RequestRouting
