/-!
# Maps in order of declaration

A map keeps its keys in the order they were first given, while a value given later replaces the
earlier one in place.
-/

namespace RequestRouting

/-- A map, its entries in the order their keys were first given. -/
structure Ordered (α : Type) where
  entries : List (String × α) := []

namespace Ordered

variable {α : Type}

/-- Replaces the value of the key in place, or adds the entry at the end. -/
def place (k : String) (v : α) : List (String × α) → List (String × α)
  | [] => [(k, v)]
  | (k', v') :: rest => if k' = k then (k', v) :: rest else (k', v') :: place k v rest

/-- Sets the value of the key. -/
def insert (m : Ordered α) (k : String) (v : α) : Ordered α := ⟨place k v m.entries⟩

/-- The value of the key. -/
def get? (m : Ordered α) (k : String) : Option α :=
  (m.entries.find? (·.1 = k)).map (·.2)

/-- The map with the given entries. -/
def ofList (entries : List (String × α)) : Ordered α :=
  entries.foldl (fun m (k, v) => m.insert k v) {}

/-- The keys, in order of declaration. -/
def keys (m : Ordered α) : List String := m.entries.map (·.1)

/-- The number of keys. -/
def size (m : Ordered α) : Nat := m.entries.length

/-- Whether there are no keys. -/
def isEmpty (m : Ordered α) : Bool := m.entries.isEmpty

/-- The map with all values replaced. -/
def map {β : Type} (f : α → β) (m : Ordered α) : Ordered β :=
  ⟨m.entries.map fun (k, v) => (k, f v)⟩

end Ordered

end RequestRouting
