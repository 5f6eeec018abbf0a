import RequestRouting.Config.Descriptor
import RequestRouting.Config.Dispatchers
import RequestRouting.Json.Parser

/-!
# Configuration

The configuration of an application: its settings, where it's mounted, its route table, its error
pages and its dispatchers.
-/

namespace RequestRouting

/-- The configuration of an application. -/
structure Config where
  settings : Settings := {}
  /-- The base URI the application is mounted at, by virtual host. -/
  hosts : Ordered String := {}
  routes : Ordered Descriptor := {}
  /-- The URIs of error pages, by number of the status. -/
  errors : Keyed Nat String := {}
  dispatchers : Dispatchers := {}
  /-- URIs requested after the application was assembled. -/
  preheat : List String := []

namespace Config

open Json.Decoder

/-- Reads a configuration. -/
def decoder : Json.Decoder Error Config :=
  record "AppConfig"
    [field "settings" Settings.decoder fun x s => { s with settings := x },
     field "hosts" (ordered string) fun x s => { s with hosts := x },
     field "routes"
       (ordered (Node.descriptorDecoder fun v => Descriptor.ofJson v.resolveKeys))
       fun x s => { s with routes := x },
     field "errors" (numbered string) fun x s => { s with errors := x },
     field "dispatchers" Dispatchers.decoder fun x s => { s with dispatchers := x },
     field "preheat" (list string) fun x s => { s with preheat := x }]
    {}

/-- Reads a configuration from a JSON value. -/
def ofJson (v : Json) : Except Error Config := (decoder v).mapError .json

/-- The part of a configuration that holds the error pages, with the part of another value of the
same shape in its place. -/
def errorPages? : Json → Json → Option (Json × Json)
  | .obj members, .obj others =>
    ((members.zip others).find? (·.1.1 = "errors")).map fun ((_, pages), _, other) => (pages, other)
  | .arr items, .arr others => (items.zip others)[3]?
  | _, _ => none

/-- Whether the keys of error pages are the same in two values of the same shape. -/
def samePages (v w : Json) : Bool :=
  match errorPages? v w with
  | some (.obj members, .obj others) => members.map (·.1) = others.map (·.1)
  | _ => true

/-- Reads a configuration from a text. Keys that are numbers must be written without escapes. -/
def parse (text : String) : Except Error Config :=
  match Json.parse? text, Json.parseKeys? .written text with
  | some v, some w => if samePages v w then ofJson v else .error (.json (.flaw .malformedText))
  | _, _ => .error (.json (.flaw .malformedText))

end Config

end RequestRouting
