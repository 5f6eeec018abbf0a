import RequestRouting.Route.Matcher
import RequestRouting.Route.Tree.Insert

/-!
# Tables of routes

A table holds the patterns of many routes in a tree, and finds the one that matches a path. Patterns
that can't be told apart are refused.
-/

namespace RequestRouting

/-- A table of routes with values. -/
structure RouteTable (α : Type) where
  tree : RouteTree α := .empty

/-- A route found in a table: its value, and the values of its variables in order. -/
structure RouteTable.Match (α : Type) where
  value : α
  values : List (String × String)

namespace RouteTable

variable {α : Type}

/-- Adds a pattern, yielding the table as it is afterwards in either case. -/
def insert (t : RouteTable α) (value : α) (text : String) :
    RouteTable α × Except PatternError Unit :=
  match Pattern.tokens text.toList with
  | none => (t, .error .unnamedParameter)
  | some tokens =>
    let leaf := ⟨value, Pattern.names tokens⟩
    let symbols := Pattern.symbols tokens
    let (tree, result) := match t.tree with
      | .node [] _ weight .nil .nothing =>
        let (tree, result) := RouteTree.grow leaf symbols
        (tree.withWeight (weight + 1), result)
      | tree => tree.insert [] leaf symbols
    (⟨tree⟩, result)

/-- Adds patterns one after another up to the first that is refused. -/
def insertAll (t : RouteTable α) (value : α) : List String → RouteTable α × Except PatternError Unit
  | [] => (t, .ok ())
  | text :: rest =>
    match t.insert value text with
    | (t, .ok ()) => t.insertAll value rest
    | (t, .error error) => (t, .error error)

/-- Adds the patterns of a route, yielding the table as it is afterwards in either case. -/
def add (t : RouteTable α) (route : Route) (value : α) : RouteTable α × Except PatternError Unit :=
  t.insertAll value route.patterns

/-- The text of bytes. -/
def decode (bytes : List UInt8) : String := .ofList (Text.Utf8.decodeLenient bytes)

/-- Finds the route that matches a path. -/
def find? (t : RouteTable α) (path : String) : Option (Match α) :=
  (t.tree.find? (Text.Utf8.encode path.toList)).map fun found =>
    { value := found.leaf.value
      values := found.leaf.names.zip (found.taken.map decode) ++
        found.rest.map fun (name, taken) => (name, decode taken) }

end RouteTable

end RequestRouting
