/-!
# Maps in key order

A map is a list of entries in ascending order of their keys, so equal maps have equal lists and
are listed in one order only. The laws of looking up a key don't depend on the order.
-/

namespace RequestRouting

/-- A map, its entries in ascending order of their keys. -/
structure Keyed (κ α : Type) where
  entries : List (κ × α) := []
  deriving DecidableEq

namespace Keyed

variable {κ α : Type} [Ord κ]

/-- Puts the entry in place, or replaces the value of its key. -/
def place (k : κ) (v : α) : List (κ × α) → List (κ × α)
  | [] => [(k, v)]
  | (k', v') :: rest =>
    match compare k k' with
    | .lt => (k, v) :: (k', v') :: rest
    | .eq => (k, v) :: rest
    | .gt => (k', v') :: place k v rest

/-- The value of the first entry with the given key. -/
def find? (k : κ) : List (κ × α) → Option α
  | [] => none
  | (k', v') :: rest => if compare k k' = .eq then some v' else find? k rest

/-- The value of the key. -/
def get? (m : Keyed κ α) (k : κ) : Option α := find? k m.entries

/-- Whether the key has a value. -/
def contains (m : Keyed κ α) (k : κ) : Bool := (m.get? k).isSome

/-- Sets the value of the key. -/
def insert (m : Keyed κ α) (k : κ) (v : α) : Keyed κ α := ⟨place k v m.entries⟩

/-- Sets the value of the key unless it has one. -/
def insertIfAbsent (m : Keyed κ α) (k : κ) (v : α) : Keyed κ α :=
  if m.contains k then m else m.insert k v

/-- Removes the key. -/
def erase (m : Keyed κ α) (k : κ) : Keyed κ α :=
  ⟨m.entries.filter fun (k', _) => compare k k' != .eq⟩

/-- Sets the values of several keys, the last value of a key winning. -/
def insertMany (m : Keyed κ α) (entries : List (κ × α)) : Keyed κ α :=
  entries.foldl (fun m (k, v) => m.insert k v) m

/-- The map with the given entries, the last value of a key winning. -/
def ofList (entries : List (κ × α)) : Keyed κ α := insertMany {} entries

/-- The number of keys. -/
def size (m : Keyed κ α) : Nat := m.entries.length

/-- Whether there are no keys. -/
def isEmpty (m : Keyed κ α) : Bool := m.entries.isEmpty

/-- The keys, in ascending order. -/
def keys (m : Keyed κ α) : List κ := m.entries.map (·.1)

variable [Std.LawfulEqOrd κ]

theorem find?_place_self (k : κ) (v : α) (l : List (κ × α)) : find? k (place k v l) = some v := by
  induction l with
  | nil => simp [place, find?]
  | cons e l ih =>
    obtain ⟨k', v'⟩ := e
    simp only [place]
    split <;> simp_all [find?]

theorem find?_place_of_ne {k k' : κ} (h : k' ≠ k) (v : α) (l : List (κ × α)) :
    find? k' (place k v l) = find? k' l := by
  induction l with
  | nil => simp [place, find?, h]
  | cons e l ih =>
    obtain ⟨k₁, v₁⟩ := e
    simp only [place]
    split
    · simp [find?, h]
    · rename_i he
      have : k = k₁ := by simpa using he
      subst this
      simp [find?, h]
    · simp only [find?, ih]

@[simp] theorem get?_insert_self (m : Keyed κ α) (k : κ) (v : α) :
    (m.insert k v).get? k = some v := find?_place_self k v m.entries

theorem get?_insert_of_ne (m : Keyed κ α) {k k' : κ} (h : k' ≠ k) (v : α) :
    (m.insert k v).get? k' = m.get? k' := find?_place_of_ne h v m.entries

theorem get?_insert [DecidableEq κ] (m : Keyed κ α) (k k' : κ) (v : α) :
    (m.insert k v).get? k' = if k' = k then some v else m.get? k' := by
  by_cases h : k' = k
  · rw [h, get?_insert_self, if_pos rfl]
  · rw [get?_insert_of_ne m h, if_neg h]

end Keyed

end RequestRouting
