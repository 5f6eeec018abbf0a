import RequestRouting.Json.Basic
import RequestRouting.Keyed

/-!
# Taking JSON values apart and putting them together

Members that are missing or of another kind count as absent, so readers give their own defaults.
-/

namespace RequestRouting.Json

/-- The members of an object. -/
def members : Json → List (String × Json)
  | obj members => members
  | _ => []

/-- The items of an array. -/
def items : Json → List Json
  | arr items => items
  | _ => []

/-- The text of a string. -/
def string? : Json → Option String
  | str s => some s
  | _ => none

/-- The value of an integer. -/
def int? : Json → Option Int
  | int i => some i
  | _ => none

/-- The value of the first member with the given key. -/
def get? (v : Json) (key : String) : Option Json :=
  (v.members.find? (·.1 = key)).map (·.2)

/-- A number that isn't negative. -/
def nat (n : Nat) : Json := .int n

/-- A value, or null if there's none. -/
def optional {α : Type} (f : α → Json) (x : Option α) : Json := (x.map f).getD .null

/-- A list of values. -/
def list {α : Type} (f : α → Json) (l : List α) : Json := .arr (l.map f)

/-- A list of strings. -/
def strings (l : List String) : Json := list .str l

/-- Two values. -/
def pair (x y : Json) : Json := .arr [x, y]

/-- Entries in order, as pairs. -/
def pairs {α : Type} (f : α → Json) (l : List (String × α)) : Json :=
  list (fun (key, x) => pair (.str key) (f x)) l

/-- A map as an object. -/
def map {α : Type} (f : α → Json) (m : Keyed String α) : Json :=
  .obj (m.entries.map fun (key, x) => (key, f x))

end RequestRouting.Json
