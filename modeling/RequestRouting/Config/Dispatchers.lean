import RequestRouting.Error

/-!
# Dispatchers

A dispatcher is a library document that implements requests by identifiers which it looks up in a
library directory. Dispatchers are configured by name, and one may be the default.
-/

namespace RequestRouting

/-- The configuration of a dispatcher. -/
structure Dispatcher where
  /-- The library document. -/
  document : Option String := none
  /-- The library URI where identifiers are looked up. -/
  resources : Option String := none
  /-- Other values, which become globals of the application. -/
  extra : Keyed String Json := {}

/-- The dispatchers of an application. -/
structure Dispatchers where
  default : Option String := none
  entries : Ordered Dispatcher := {}

namespace Dispatcher

/-- Reads a member of a dispatcher. Members that aren't known, or aren't strings, are extra. -/
def readMember (d : Dispatcher) : String × Json → Dispatcher
  | ("dispatcher", .str document) => { d with document := some document }
  | ("resources", .str uri) => { d with resources := some uri }
  | (key, value) => { d with extra := d.extra.insert key value }

/-- Reads a dispatcher from its resources alone, or from an object. -/
def ofJson? : Json → Option Dispatcher
  | .str uri => some { resources := some uri }
  | .obj members => some (members.foldl readMember {})
  | _ => none

end Dispatcher

namespace Dispatchers

/-- Reads an entry. The default dispatcher is given by name. -/
def readEntry (d : Dispatchers) : String × Json → Except Error Dispatchers
  | ("default", .str name) => .ok { d with default := some name }
  | (name, value) =>
    match Dispatcher.ofJson? value with
    | some dispatcher => .ok { d with entries := d.entries.insert name dispatcher }
    | none => .error (.dispatcher name value.text)

/-- Reads the dispatchers of an application. -/
def decoder : Json.Decoder Error Dispatchers := fun v => do
  let entries ← Json.Decoder.ordered (fun v => .ok v.resolveKeys) v
  (entries.entries.foldlM readEntry {}).mapError .other

end Dispatchers

end RequestRouting
