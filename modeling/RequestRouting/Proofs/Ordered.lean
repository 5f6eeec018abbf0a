import Mathlib.Data.Finset.Card
import RequestRouting.Json.Decode
import RequestRouting.Json.Parser

/-!
# The order of declaration

A key that is set again keeps its place and gets the new value. So whatever values keys are set to
one after another, a map has each key once, in the order of their first occurrences, with the value
of the last one. An object is read like that as well, whose keys may be repeated in a text.
-/

namespace RequestRouting

namespace Ordered

variable {α : Type} {m : Ordered α} {log : List (String × α)}

theorem keys_place (k : String) (v : α) (l : List (String × α)) :
    (place k v l).map (·.1) = if k ∈ l.map (·.1) then l.map (·.1) else l.map (·.1) ++ [k] := by
  induction l with
  | nil => rfl
  | cons first rest ih =>
    obtain ⟨k', v'⟩ := first
    simp only [place, List.map_cons, List.mem_cons]
    by_cases hk : k' = k
    · simp [hk]
    · rw [if_neg hk, List.map_cons, ih]
      by_cases hm : k ∈ rest.map (·.1)
      · simp [hm]
      · simp [hm, Ne.symm hk]

theorem find?_place (k k' : String) (v : α) (l : List (String × α)) :
    (place k v l).find? (·.1 = k') = if k' = k then some (k, v) else l.find? (·.1 = k') := by
  induction l with
  | nil =>
    by_cases hk : k' = k
    · simp [place, hk]
    · simp [place, hk, Ne.symm hk]
  | cons first rest ih =>
    obtain ⟨k₁, v₁⟩ := first
    rw [place]
    by_cases h₁ : k₁ = k
    · by_cases hk : k' = k
      · simp [h₁, hk]
      · simp [h₁, hk, Ne.symm hk]
    · rw [if_neg h₁, List.find?_cons, List.find?_cons, ih]
      by_cases hk : k' = k
      · simp [hk, h₁]
      · simp [hk]

theorem place_of_not_mem {k : String} {l : List (String × α)} (h : k ∉ l.map (·.1)) (v : α) :
    place k v l = l ++ [(k, v)] := by
  induction l with
  | nil => rfl
  | cons first rest ih =>
    obtain ⟨hfirst, hrest⟩ := not_or.mp (mt List.mem_cons.mpr h)
    rw [place, if_neg (Ne.symm hfirst), ih hrest, List.cons_append]

theorem keys_insert (m : Ordered α) (k : String) (v : α) :
    (m.insert k v).keys = if k ∈ m.keys then m.keys else m.keys ++ [k] :=
  keys_place k v m.entries

theorem get?_insert (m : Ordered α) (k k' : String) (v : α) :
    (m.insert k v).get? k' = if k' = k then some v else m.get? k' := by
  rw [get?, insert, find?_place]
  split <;> rfl

/-- If no key is repeated, an entry is the one that is found under its key. -/
theorem find?_of_nodup {β : Type} {key : β → String} {l : List β} (h : (l.map key).Nodup) {e : β}
    (he : e ∈ l) : l.find? (key · = key e) = some e := by
  obtain ⟨e', hfound⟩ : ∃ e', l.find? (key · = key e) = some e' :=
    Option.isSome_iff_exists.mp (List.find?_isSome.mpr ⟨e, he, decide_eq_true rfl⟩)
  have hkey : key e' = key e := by simpa using List.find?_some hfound
  have heq : e' = e := List.inj_on_of_nodup_map h (List.mem_of_find?_eq_some hfound) he hkey
  rw [hfound, heq]

/-- If no key is repeated, what comes up in a map is what is found under its key. -/
theorem get?_of_mem (h : m.keys.Nodup) {e : String × α} (he : e ∈ m.entries) :
    m.get? e.1 = some e.2 := by
  rw [get?, find?_of_nodup h he]
  rfl

theorem ofList_concat (log : List (String × α)) (e : String × α) :
    ofList (log ++ [e]) = (ofList log).insert e.1 e.2 := by
  rw [ofList, List.foldl_append]
  rfl

/-- What a key is set to last, if it's set at all. -/
def last? (log : List (String × α)) (k : String) : Option α :=
  (log.reverse.find? (·.1 = k)).map (·.2)

theorem last?_concat (log : List (String × α)) (k k' : String) (v : α) :
    last? (log ++ [(k, v)]) k' = if k' = k then some v else last? log k' := by
  rw [last?, List.reverse_append, List.reverse_singleton, List.singleton_append, List.find?_cons]
  by_cases hk : k' = k
  · simp [hk]
  · simp [hk, Ne.symm hk, last?]

theorem eraseDups_concat (keys : List String) (k : String) :
    (keys ++ [k]).eraseDups = if k ∈ keys then keys.eraseDups else keys.eraseDups ++ [k] := by
  rw [List.eraseDups_append]
  by_cases hk : k ∈ keys
  · simp [hk, List.removeAll]
  · simp [hk, List.removeAll, List.eraseDups_cons]

theorem nodup_eraseDups (keys : List String) : keys.eraseDups.Nodup := by
  induction keys using List.reverseRecOn with
  | nil => exact List.nodup_nil
  | append_singleton keys k ih =>
    rw [eraseDups_concat]
    split
    · exact ih
    · rename_i hk
      exact List.nodup_append_comm.mp (List.nodup_cons.mpr ⟨mt List.mem_eraseDups.mp hk, ih⟩)

/-- Whether a map is what is left of all the values that keys were set to, in order. -/
structure Records (m : Ordered α) (log : List (String × α)) : Prop where
  keys : m.keys = (log.map (·.1)).eraseDups
  get? : ∀ k, m.get? k = last? log k

theorem records_empty : Records ({} : Ordered α) [] := ⟨rfl, fun _ => rfl⟩

theorem Records.nodup (h : m.Records log) : m.keys.Nodup := by
  rw [h.keys]
  exact nodup_eraseDups _

theorem Records.insert (h : m.Records log) (k : String) (v : α) :
    (m.insert k v).Records (log ++ [(k, v)]) := by
  refine ⟨?_, fun k' => ?_⟩
  · have hmem : k ∈ m.keys ↔ k ∈ log.map (·.1) := by rw [h.keys, List.mem_eraseDups]
    rw [keys_insert, List.map_append, List.map_singleton, eraseDups_concat, ← h.keys]
    simp only [hmem]
  · rw [get?_insert, last?_concat, h.get?]

/-- A map that is made by setting values one after another. -/
theorem records_ofList (log : List (String × α)) : (ofList log).Records log := by
  induction log using List.reverseRecOn with
  | nil => exact records_empty
  | append_singleton log e ih =>
    rw [ofList_concat]
    exact ih.insert e.1 e.2

/-- What is gone through are the keys in order, each with what is found under it. -/
theorem Records.entries (h : m.Records log) : m.entries.map (fun e => (e.1, some e.2)) =
    (log.map (·.1)).eraseDups.map fun k => (k, last? log k) := by
  rw [← h.keys, Ordered.keys, List.map_map]
  refine List.map_congr_left fun e he => ?_
  rw [Function.comp_apply, ← h.get?, get?_of_mem h.nodup he]

/-- Whatever is in a map was set. -/
theorem Records.mem_log (h : m.Records log) {e : String × α} (he : e ∈ m.entries) : e ∈ log := by
  have hlast : last? log e.1 = some e.2 := (h.get? e.1).symm.trans (get?_of_mem h.nodup he)
  obtain ⟨e', hfound, hvalue⟩ := Option.map_eq_some_iff.mp hlast
  have hkey : e'.1 = e.1 := by simpa using List.find?_some hfound
  have hmem : e' ∈ log := List.mem_reverse.mp (List.mem_of_find?_eq_some hfound)
  rwa [Prod.ext hkey hvalue] at hmem

/-- If no key is set twice, a map is what was set. -/
theorem entries_ofList (h : (log.map (·.1)).Nodup) : (ofList log).entries = log := by
  induction log using List.reverseRecOn with
  | nil => rfl
  | append_singleton log e ih =>
    rw [List.map_append, List.map_singleton, List.nodup_append] at h
    obtain ⟨hlog, -, hdisjoint⟩ := h
    have hnew : e.1 ∉ log.map (·.1) := fun hm => hdisjoint _ hm _ (List.mem_singleton_self _) rfl
    rw [ofList_concat, insert, ih hlog]
    exact place_of_not_mem hnew e.2

/-- There are as many entries as there are different keys. -/
theorem Records.size (h : m.Records log) : m.size = (log.map (·.1)).toFinset.card := by
  have hset : m.keys.toFinset = (log.map (·.1)).toFinset := by
    ext k
    rw [List.mem_toFinset, List.mem_toFinset, h.keys, List.mem_eraseDups]
  rw [← hset, List.toFinset_card_of_nodup h.nodup, Ordered.keys, List.length_map]
  rfl

end Ordered

namespace Json.Decoder

variable {ε α : Type} {decoder : Decoder ε α} {m : Ordered α}

/-- Whether the values of an object are read as those of the given entries. -/
def Reads (decoder : Decoder ε α) (members : List (String × Json))
    (entries : List (String × α)) : Prop :=
  List.Forall₂ (fun member entry => member.1 = entry.1 ∧ decoder member.2 = .ok entry.2)
    members entries

theorem foldlM_insert_eq_ok_iff {members : List (String × Json)} {m₀ : Ordered α} :
    members.foldlM (fun m member => do
        return m.insert member.1 (← (decoder member.2).mapError (Problem.inside member.1))) m₀ =
      .ok m ↔ ∃ entries, Reads decoder members entries ∧
        m = entries.foldl (fun m e => m.insert e.1 e.2) m₀ := by
  induction members generalizing m₀ with
  | nil =>
    constructor
    · intro h
      exact ⟨[], .nil, (Except.ok.inj h).symm⟩
    · rintro ⟨entries, hr, rfl⟩
      cases hr
      rfl
  | cons member rest ih =>
    rw [List.foldlM_cons]
    cases hv : decoder member.2 with
    | error e =>
      refine iff_of_false nofun ?_
      rintro ⟨entries, hr, -⟩
      cases hr with
      | cons hfirst _ =>
        rw [hv] at hfirst
        cases hfirst.2
    | ok x =>
      refine ih.trans ⟨?_, ?_⟩
      · rintro ⟨entries, hr, rfl⟩
        exact ⟨(member.1, x) :: entries, .cons ⟨rfl, hv⟩ hr, rfl⟩
      · rintro ⟨entries, hr, rfl⟩
        cases hr with
        | @cons _ entry _ entries hfirst hrest =>
          obtain ⟨hkey, hvalue⟩ := hfirst
          obtain rfl : x = entry.2 := Except.ok.inj (hv.symm.trans hvalue)
          exact ⟨entries, hrest, by rw [hkey]; rfl⟩

/-- An object is read if and only if all of its values are, as if they were set one by one. -/
theorem ordered_eq_ok_iff {v : Json} : ordered decoder v = .ok m ↔
    ∃ members entries, v = .obj members ∧ Reads decoder members entries ∧ m = .ofList entries := by
  cases v with
  | obj members =>
    refine foldlM_insert_eq_ok_iff.trans ⟨?_, ?_⟩
    · rintro ⟨entries, hr, hm⟩
      exact ⟨members, entries, rfl, hr, hm⟩
    · rintro ⟨_, entries, ⟨⟩, hr, hm⟩
      exact ⟨entries, hr, hm⟩
  | null | bool _ | int _ | float _ | str _ | arr _ =>
    refine iff_of_false nofun ?_
    rintro ⟨_, _, ⟨⟩, _⟩

/-- A key of an object is given once, however often it occurs in it. -/
theorem nodup_ordered {v : Json} (h : ordered decoder v = .ok m) : m.keys.Nodup := by
  obtain ⟨members, entries, -, -, rfl⟩ := ordered_eq_ok_iff.mp h
  exact (Ordered.records_ofList entries).nodup

end Json.Decoder

/-- Whatever keys are set to, each of them is in the map once, in the order of their first
occurrences, with the value of the last one, for looking it up as well as for going through the map.
Reading the text of an object, if it's one and all values in it are read, is setting its members one
by one. -/
theorem Ordered.declared_in_order {ε α : Type} (decoder : Json.Decoder ε α) :
    (∀ log : List (String × α),
      (ofList log).keys.Nodup ∧
      (ofList log).keys = (log.map (·.1)).eraseDups ∧
      (∀ k, (ofList log).get? k = last? log k) ∧
      (ofList log).size = (log.map (·.1)).toFinset.card ∧
      (ofList log).entries.map (fun e => (e.1, some e.2)) =
        (log.map (·.1)).eraseDups.map fun k => (k, last? log k)) ∧
    ∀ (text : String) (m : Ordered α),
      (Json.parse? text).map (Json.Decoder.ordered decoder) = some (.ok m) ↔
        ∃ members log, Json.parse? text = some (.obj members) ∧
          Json.Decoder.Reads decoder members log ∧ m = ofList log := by
  refine ⟨fun log => ?_, fun text m => ?_⟩
  · have h := records_ofList log
    exact ⟨h.nodup, h.keys, h.get?, h.size, h.entries⟩
  · rw [Option.map_eq_some_iff]
    constructor
    · rintro ⟨v, hv, hm⟩
      obtain ⟨members, log, rfl, hr, rfl⟩ := Json.Decoder.ordered_eq_ok_iff.mp hm
      exact ⟨members, log, hv, hr, rfl⟩
    · rintro ⟨members, log, hv, hr, rfl⟩
      exact ⟨_, hv, Json.Decoder.ordered_eq_ok_iff.mpr ⟨members, log, rfl, hr, rfl⟩⟩

end RequestRouting
