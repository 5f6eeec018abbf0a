import Mathlib.Algebra.Ring.Nat
import RequestRouting.Proofs.Config.Dispatchers
import RequestRouting.Proofs.Dispatch.References

/-!
# Globals of dispatchers

The extra values of all dispatchers are globals of an application, each under a name that is made of
the name of the dispatcher and the key, with a dot in between. Both may have dots themselves, so a
dispatcher whose name extends the one of another dispatcher may have the same globals.
-/

namespace RequestRouting

namespace Keyed

variable {α : Type}

theorem ofList_concat (l : List (String × α)) (e : String × α) :
    ofList (l ++ [e]) = (ofList l).insert e.1 e.2 := by
  rw [ofList, insertMany, List.foldl_append]
  rfl

/-- The value of a key is the last one it's set to. -/
theorem get?_ofList (l : List (String × α)) (k : String) :
    (ofList l).get? k = Ordered.last? l k := by
  induction l using List.reverseRecOn with
  | nil => rfl
  | append_singleton l e ih => rw [ofList_concat, get?_insert, Ordered.last?_concat, ih]

/-- There are as many entries as there are different keys. -/
theorem size_ofList (l : List (String × α)) :
    (ofList l).size = (l.map (·.1)).toFinset.card := by
  have hset : (ofList l).keys.toFinset = (l.map (·.1)).toFinset := by
    ext k
    rw [List.mem_toFinset, List.mem_toFinset]
    constructor
    · intro hk
      obtain ⟨e, he, rfl⟩ := List.mem_map.mp hk
      exact List.mem_map_of_mem ((mem_insertMany he).resolve_left List.not_mem_nil)
    · intro hk
      obtain ⟨v, -, hget⟩ := exists_get?_insertMany {} hk
      exact List.mem_map_of_mem (mem_of_find? hget)
  have hnodup : (ofList l).keys.Nodup := (isAscending_ofList l).nodup
  rw [← hset, List.toFinset_card_of_nodup hnodup, keys, List.length_map]
  rfl

/-- No key is set twice if and only if there are as many entries as were set. -/
theorem size_ofList_eq_iff (l : List (String × α)) :
    (ofList l).size = l.length ↔ (l.map (·.1)).Nodup := by
  rw [size_ofList, ← List.length_map (·.1)]
  exact Multiset.toFinset_card_eq_card_iff_nodup

end Keyed

theorem append_cons_eq_append_cons {c : Char} {a b k l : List Char} :
    a ++ c :: k = b ++ c :: l ↔ (a = b ∧ k = l) ∨ (∃ m, b = a ++ c :: m ∧ k = m ++ c :: l) ∨
      ∃ m, a = b ++ c :: m ∧ l = m ++ c :: k := by
  rw [List.append_eq_append_iff]
  constructor
  · rintro (⟨m, rfl, h⟩ | ⟨m, rfl, h⟩)
    · cases m with
      | nil => exact .inl ⟨(List.append_nil _).symm, (List.cons.inj h).2⟩
      | cons x m =>
        obtain ⟨rfl, hk⟩ := List.cons.inj h
        exact .inr (.inl ⟨m, rfl, hk⟩)
    · cases m with
      | nil => exact .inl ⟨List.append_nil _, (List.cons.inj h).2.symm⟩
      | cons x m =>
        obtain ⟨rfl, hl⟩ := List.cons.inj h
        exact .inr (.inr ⟨m, rfl, hl⟩)
  · rintro (⟨rfl, rfl⟩ | ⟨m, rfl, rfl⟩ | ⟨m, rfl, rfl⟩)
    · exact .inl ⟨[], (List.append_nil _).symm, rfl⟩
    · exact .inl ⟨c :: m, rfl, rfl⟩
    · exact .inr ⟨c :: m, rfl, rfl⟩

namespace DispatchTable

variable {a b k l : String}

theorem toList_append_dot (a b : String) :
    (a ++ "." ++ b).toList = a.toList ++ '.' :: b.toList := by
  simp

theorem toList_globalName (a k : String) :
    (globalName a k).toList = "dispatcher.".toList ++ (a.toList ++ '.' :: k.toList) := by
  rw [globalName, toList_append_dot, String.toList_append, List.append_assoc]

theorem exists_toList_iff : (∃ m : List Char, b.toList = a.toList ++ '.' :: m ∧
    k.toList = m ++ '.' :: l.toList) ↔ ∃ m, b = a ++ "." ++ m ∧ k = m ++ "." ++ l := by
  constructor
  · rintro ⟨m, hb, hk⟩
    refine ⟨.ofList m, String.toList_inj.mp ?_, String.toList_inj.mp ?_⟩
    · rw [toList_append_dot, String.toList_ofList, hb]
    · rw [toList_append_dot, String.toList_ofList, hk]
  · rintro ⟨m, rfl, rfl⟩
    exact ⟨m.toList, toList_append_dot a m, toList_append_dot m l⟩

/-- Two globals are the same if one name extends the other one by the first part of the other key,
and in no other case. -/
theorem globalName_eq_iff : globalName a k = globalName b l ↔ (a = b ∧ k = l) ∨
    (∃ m, b = a ++ "." ++ m ∧ k = m ++ "." ++ l) ∨
      ∃ m, a = b ++ "." ++ m ∧ l = m ++ "." ++ k := by
  rw [← String.toList_inj, toList_globalName, toList_globalName, List.append_cancel_left_eq,
    append_cons_eq_append_cons, exists_toList_iff, exists_toList_iff, String.toList_inj,
    String.toList_inj]

variable {t : DispatchTable} {d : Dispatchers} {v : Json}

theorem globals_eq (t : DispatchTable) : t.globals = .ofList (t.values.flatMap fun e =>
    e.2.entries.map fun x => (globalName e.1.name x.1, x.2)) := by
  rw [values, List.flatMap_map]
  rfl

/-- References to dispatchers have no bearing on the globals. -/
theorem globals_referenceAll (h : t.names.Nodup) (refs : List (Option String)) :
    (t.referenceAll refs).globals = t.globals := by
  have hnone : ((t.unknown refs).map fun name =>
      (DispatchTarget.ofDispatcher name {}, ({} : Dispatcher).extra)).flatMap (fun e =>
        e.2.entries.map fun x => (globalName e.1.name x.1, x.2)) = [] := by
    rw [List.flatMap_map]
    exact List.flatMap_eq_nil_iff.mpr fun _ _ => rfl
  rw [globals_eq, globals_eq, values_referenceAll h, List.flatMap_append, hnone, List.append_nil]

/-- The global of an extra value. -/
def globalOf (e : (String × String) × Json) : String × Json := (globalName e.1.1 e.1.2, e.2)

theorem globals_ofDispatchers (d : Dispatchers) :
    (ofDispatchers d).globals = .ofList (d.extras.map globalOf) := by
  rw [globals, ofDispatchers, List.flatMap_map, Dispatchers.extras, List.map_flatMap]
  simp only [List.map_map]
  rfl

/-- Whether two extra values of an object have the same global: the name of one dispatcher extends
the name of the other one by the first part of a key, and has the rest of it as a key. -/
def HasClash (v : Json) : Prop :=
  ∃ name rest key value value', Dispatchers.Configures v name (rest ++ "." ++ key) value ∧
    Dispatchers.Configures v (name ++ "." ++ rest) key value'

theorem append_dot_ne (a b : String) : a ++ "." ++ b ≠ a := by
  intro heq
  have hlength := congrArg (·.toList.length) heq
  simp at hlength

/-- Each extra value has a global of its own if and only if no two of them clash. -/
theorem nodup_globals_iff (h : Dispatchers.decoder v = .ok d) :
    ((d.extras.map globalOf).map (·.1)).Nodup ↔ ¬HasClash v := by
  have hkeys := Dispatchers.nodup_extras h
  rw [List.map_map]
  constructor
  · rintro hnodup ⟨name, rest, key, value, value', hfirst, hsecond⟩
    rw [← Dispatchers.mem_extras_iff h] at hfirst hsecond
    have hglobal : globalName name (rest ++ "." ++ key) = globalName (name ++ "." ++ rest) key :=
      globalName_eq_iff.mpr (.inr (.inl ⟨rest, rfl, rfl⟩))
    have heq := List.inj_on_of_nodup_map hnodup hfirst hsecond hglobal
    exact append_dot_ne name rest (congrArg (·.1.1) heq).symm
  · intro hclash
    refine List.Nodup.map_on ?_ hkeys.of_map
    rintro ⟨⟨a, k⟩, x⟩ he ⟨⟨b, l⟩, y⟩ he' hglobal
    have hfirst := (Dispatchers.mem_extras_iff h).mp he
    have hsecond := (Dispatchers.mem_extras_iff h).mp he'
    have hname : globalName a k = globalName b l := hglobal
    rcases globalName_eq_iff.mp hname with ⟨rfl, rfl⟩ | ⟨m, rfl, rfl⟩ | ⟨m, rfl, rfl⟩
    · exact List.inj_on_of_nodup_map hkeys he he' rfl
    · exact absurd ⟨a, m, l, x, y, hfirst, hsecond⟩ hclash
    · exact absurd ⟨b, m, k, y, x, hsecond, hfirst⟩ hclash

/-- A global has the last value that was configured for its name, in the order of the dispatchers.
There are as many globals as extra values, each of which has the value of its dispatcher and its
key, if and only if there's no clash, whatever dispatchers were referred to. -/
theorem globals_lossless_iff (h : Dispatchers.decoder v = .ok d) (refs : List (Option String)) :
    let globals := ((ofDispatchers d).referenceAll refs).globals
    (∀ name, globals.get? name = Ordered.last? (d.extras.map globalOf) name) ∧
      (∀ name key value, ((name, key), value) ∈ d.extras ↔
        Dispatchers.Configures v name key value) ∧
      (globals.size = (d.entries.entries.map fun e => e.2.extra.size).sum ∧
          (∀ name key value, Dispatchers.Configures v name key value →
            globals.get? (globalName name key) = some value) ↔
        ¬HasClash v) := by
  intro globals
  have hglobals : globals = .ofList (d.extras.map globalOf) := by
    rw [← globals_ofDispatchers]
    exact globals_referenceAll (nodup_names_ofDispatchers (Dispatchers.nodup_keys h)) refs
  clear_value globals
  subst hglobals
  have htotal : (d.entries.entries.map fun e => e.2.extra.size).sum =
      (d.extras.map globalOf).length := by
    rw [List.length_map, Dispatchers.extras, List.length_flatMap]
    simp only [List.length_map]
    rfl
  rw [htotal, Keyed.size_ofList_eq_iff, ← nodup_globals_iff h]
  refine ⟨Keyed.get?_ofList _, fun _ _ _ => Dispatchers.mem_extras_iff h, and_iff_left_of_imp ?_⟩
  intro hnodup name key value hvalue
  have hmem : globalOf ((name, key), value) ∈ d.extras.map globalOf :=
    List.mem_map_of_mem ((Dispatchers.mem_extras_iff h).mpr hvalue)
  exact Keyed.get?_ofList_of_mem hnodup hmem

/-- Dispatchers with names and keys that have dots, but don't clash. -/
def dotted : Json := .obj
  [("default", .str "python"), ("python", .obj [("strict", .bool true), ("a.b", .int 1)]),
    ("python.c", .obj [("b", .int 2)]), ("ruby", .str "/rb/")]

/-- What is read of them. -/
def dottedDispatchers : Dispatchers where
  default := some "python"
  entries := ⟨[("python", { extra := ⟨[("a.b", .int 1), ("strict", .bool true)]⟩ }),
    ("python.c", { extra := ⟨[("b", .int 2)]⟩ }), ("ruby", { resources := some "/rb/" })]⟩

theorem globals_lossless_iff_dotted :
    Dispatchers.decoder dotted = .ok dottedDispatchers ∧ ¬HasClash dotted := by
  have hread : Dispatchers.decoder dotted = .ok dottedDispatchers := by rfl
  obtain ⟨-, hextras, hlossless⟩ := globals_lossless_iff hread [none, some "ruby"]
  refine ⟨hread, hlossless.mp ⟨by decide, fun name key value hvalue => ?_⟩⟩
  have hall : dottedDispatchers.extras = [(("python", "a.b"), .int 1),
      (("python", "strict"), .bool true), (("python.c", "b"), .int 2)] := rfl
  rw [← hextras, hall, List.mem_cons, List.mem_cons, List.mem_singleton] at hvalue
  rcases hvalue with hvalue | hvalue | hvalue <;> cases hvalue <;> rfl

/-- Two dispatchers of which one value is lost. -/
def clashing : Json := .obj [("a", .obj [("b.c", .int 1)]), ("a.b", .obj [("c", .int 2)])]

/-- What is read of them. -/
def clashingDispatchers : Dispatchers where
  entries := ⟨[("a", { extra := ⟨[("b.c", .int 1)]⟩ }), ("a.b", { extra := ⟨[("c", .int 2)]⟩ })]⟩

/-- An extra value may lose its global to that of another dispatcher. -/
theorem not_globals_lossless : ¬∀ (v : Json) (d : Dispatchers), Dispatchers.decoder v = .ok d →
    (ofDispatchers d).globals.size = (d.entries.entries.map fun e => e.2.extra.size).sum ∧
      ∀ name key value, Dispatchers.Configures v name key value →
        (ofDispatchers d).globals.get? (globalName name key) = some value := by
  intro hclaim
  have hread : Dispatchers.decoder clashing = .ok clashingDispatchers := by rfl
  obtain ⟨hsize, -⟩ := hclaim clashing clashingDispatchers hread
  exact absurd hsize (by decide)

end DispatchTable

end RequestRouting
