import RequestRouting.Config.Dispatchers
import RequestRouting.Json.Access
import RequestRouting.Proofs.Keyed
import RequestRouting.Proofs.Ordered

/-!
# How dispatchers are read

The members of an object are dispatchers, one of each name, except for the name of the default
one. Whatever isn't known of a dispatcher is an extra value of it, also where a known key has a
value that isn't a string.
-/

namespace RequestRouting

namespace Json

theorem resolveMembers_eq (members : List (String × Json)) :
    resolveMembers members = members.map fun member => (member.1, member.2.resolveKeys) := by
  induction members with
  | nil => rfl
  | cons member rest ih => rw [resolveMembers, ih, List.map_cons]

/-- No key is repeated in an object whose repeated keys were resolved. -/
theorem nodup_resolveKeys (v : Json) : (v.resolveKeys.members.map (·.1)).Nodup := by
  cases v with
  | obj members => exact (Ordered.records_ofList _).nodup
  | null | bool _ | int _ | float _ | str _ | arr _ => exact List.nodup_nil

/-- The repeated keys of what is in an object are resolved with those of the object. -/
theorem exists_resolveKeys {v : Json} {member : String × Json}
    (h : member ∈ v.resolveKeys.members) : ∃ w : Json, member.2 = w.resolveKeys := by
  cases v with
  | obj members =>
    have hlog : member ∈ resolveMembers members := (Ordered.records_ofList _).mem_log h
    rw [resolveMembers_eq] at hlog
    obtain ⟨m, -, rfl⟩ := List.mem_map.mp hlog
    exact ⟨m.2, rfl⟩
  | null | bool _ | int _ | float _ | str _ | arr _ => cases h

theorem Decoder.entries_of_ordered {ε : Type} {v : Json} {m : Ordered Json}
    (h : Decoder.ordered (fun v => (.ok v.resolveKeys : Except (Problem ε) Json)) v = .ok m) :
    m.entries = v.resolveKeys.members := by
  obtain ⟨members, entries, rfl, hreads, rfl⟩ := Decoder.ordered_eq_ok_iff.mp h
  have hentries : entries = resolveMembers members := by
    rw [resolveMembers_eq]
    clear h
    induction hreads with
    | nil => rfl
    | cons hfirst _ ih => rw [List.map_cons, ← ih, hfirst.1, Except.ok.inj hfirst.2]
  rw [hentries]
  rfl

end Json

namespace Dispatcher

variable {d : Dispatcher} {key : String} {value : Json} {members : List (String × Json)}

/-- Whether a member of a dispatcher isn't known. -/
def IsExtra : String × Json → Prop
  | (key, .str _) => key ≠ "dispatcher" ∧ key ≠ "resources"
  | _ => True

instance : DecidablePred IsExtra
  | (_, .str _) => inferInstanceAs (Decidable (_ ∧ _))
  | (_, .null) | (_, .bool _) | (_, .int _) | (_, .float _) | (_, .arr _) | (_, .obj _) =>
    isTrue trivial

theorem extra_readMember (d : Dispatcher) (member : String × Json) :
    (readMember d member).extra =
      if IsExtra member then d.extra.insert member.1 member.2 else d.extra := by
  obtain ⟨key, value⟩ := member
  cases value with
  | str s =>
    by_cases hd : key = "dispatcher"
    · subst hd; rfl
    · by_cases hr : key = "resources"
      · subst hr; rfl
      · simp [readMember, hd, hr, IsExtra]
  | _ => simp [readMember, IsExtra]

theorem extra_foldl (d : Dispatcher) (members : List (String × Json)) :
    (members.foldl readMember d).extra = d.extra.insertMany (members.filter IsExtra) := by
  induction members generalizing d with
  | nil => rfl
  | cons member rest ih =>
    rw [List.foldl_cons, ih, extra_readMember]
    by_cases h : IsExtra member
    · rw [if_pos h, List.filter_cons_of_pos (by simpa using h)]
      rfl
    · rw [if_neg h, List.filter_cons_of_neg (by simpa using h)]

/-- The extra values of a dispatcher are the members that aren't known. -/
theorem mem_extra_iff {members : List (String × Json)} (h : (members.map (·.1)).Nodup)
    {member : String × Json} :
    member ∈ (members.foldl readMember {}).extra.entries ↔ member ∈ members ∧ IsExtra member := by
  have hkeys : ((members.filter IsExtra).map (·.1)).Nodup := h.sublist (List.filter_sublist.map _)
  rw [extra_foldl]
  refine (Keyed.mem_ofList_iff hkeys).trans ?_
  rw [List.mem_filter, decide_eq_true_iff]

/-- No two extra values of a dispatcher have the same key. -/
theorem nodup_extra {v : Json} (h : ofJson? v = some d) : d.extra.keys.Nodup := by
  cases v with
  | str s =>
    obtain rfl := Option.some.inj h
    exact List.nodup_nil
  | obj members =>
    obtain rfl := Option.some.inj h
    rw [extra_foldl]
    exact (Keyed.isAscending_ofList _).nodup
  | null | bool _ | int _ | float _ | arr _ => cases h

end Dispatcher

namespace Dispatchers

/-- The dispatcher that is read from a member, unless that's the name of the default one. -/
def read? : String × Json → Option (String × Dispatcher)
  | ("default", .str _) => none
  | (name, value) => (Dispatcher.ofJson? value).map (name, ·)

theorem of_read? {member : String × Json} {e : String × Dispatcher} (h : read? member = some e) :
    member.1 = e.1 ∧ Dispatcher.ofJson? member.2 = some e.2 := by
  unfold read? at h
  split at h
  · cases h
  · obtain ⟨dispatcher, hd, rfl⟩ := Option.map_eq_some_iff.mp h
    exact ⟨rfl, hd⟩

theorem read?_obj (name : String) (members : List (String × Json)) :
    read? (name, .obj members) = some (name, members.foldl Dispatcher.readMember {}) := by
  simp [read?, Dispatcher.ofJson?]

theorem entries_readEntry {d d' : Dispatchers} {member : String × Json}
    (h : readEntry d member = .ok d') :
    d'.entries = (read? member).toList.foldl (fun m e => m.insert e.1 e.2) d.entries := by
  unfold readEntry at h
  unfold read?
  split at h
  · obtain rfl := Except.ok.inj h
    rfl
  · split at h
    · rename_i hv
      obtain rfl := Except.ok.inj h
      simp [hv]
    · cases h

theorem entries_foldlM {d d' : Dispatchers} {members : List (String × Json)}
    (h : members.foldlM readEntry d = .ok d') :
    d'.entries = (members.filterMap read?).foldl (fun m e => m.insert e.1 e.2) d.entries := by
  induction members generalizing d with
  | nil =>
    obtain rfl := Except.ok.inj h
    rfl
  | cons member rest ih =>
    rw [List.foldlM_cons] at h
    cases hd : readEntry d member with
    | error e =>
      rw [hd] at h
      cases h
    | ok d₁ =>
      rw [hd] at h
      rw [ih h, entries_readEntry hd, ← List.foldl_append, List.filterMap_cons]
      cases read? member <;> rfl

variable {v : Json} {d : Dispatchers}

theorem keys_filterMap_sublist (members : List (String × Json)) :
    ((members.filterMap read?).map (·.1)).Sublist (members.map (·.1)) := by
  induction members with
  | nil => exact .slnil
  | cons member rest ih =>
    rw [List.filterMap_cons]
    cases he : read? member with
    | none => exact ih.cons _
    | some e =>
      rw [List.map_cons, List.map_cons, (of_read? he).1]
      exact ih.cons_cons _

/-- The dispatchers of a configuration are the members of the object that are dispatchers. -/
theorem entries_of_decoder (h : decoder v = .ok d) :
    d.entries.entries = v.resolveKeys.members.filterMap read? := by
  unfold decoder at h
  cases hm : Json.Decoder.ordered
      (fun v => (.ok v.resolveKeys : Except (Json.Problem Error) Json)) v with
  | error e =>
    rw [hm] at h
    cases h
  | ok m =>
    rw [hm] at h
    have hfold : (m.entries.foldlM readEntry {}).mapError Json.Problem.other = .ok d := h
    cases hd : m.entries.foldlM readEntry {} with
    | error e =>
      rw [hd] at hfold
      cases hfold
    | ok d' =>
      rw [hd] at hfold
      obtain rfl := Except.ok.inj hfold
      rw [Json.Decoder.entries_of_ordered hm] at hd
      rw [entries_foldlM hd]
      exact Ordered.entries_ofList (v.nodup_resolveKeys.sublist (keys_filterMap_sublist _))

/-- No two dispatchers of a configuration have the same name. -/
theorem nodup_keys (h : decoder v = .ok d) : d.entries.keys.Nodup := by
  rw [Ordered.keys, entries_of_decoder h]
  exact v.nodup_resolveKeys.sublist (keys_filterMap_sublist _)

/-- The extra values of all dispatchers, each with the name of its dispatcher and with its key. -/
def extras (d : Dispatchers) : List ((String × String) × Json) :=
  d.entries.entries.flatMap fun e => e.2.extra.entries.map fun x => ((e.1, x.1), x.2)

/-- No two extra values have both the name and the key in common. -/
theorem nodup_extras (h : decoder v = .ok d) : (d.extras.map (·.1)).Nodup := by
  rw [extras, List.map_flatMap, List.nodup_flatMap]
  constructor
  · intro e he
    rw [entries_of_decoder h] at he
    obtain ⟨_, -, hread⟩ := List.mem_filterMap.mp he
    have hkeys : e.2.extra.keys.Nodup := Dispatcher.nodup_extra (of_read? hread).2
    have hpairs := hkeys.map (Prod.mk_right_injective e.1)
    rw [Keyed.keys, List.map_map] at hpairs
    rwa [List.map_map]
  · refine (List.pairwise_map.mp (nodup_keys h)).imp fun {e e'} hname => ?_
    refine List.disjoint_left.mpr fun p hp hp' => ?_
    obtain ⟨_, hx, rfl⟩ := List.mem_map.mp hp
    obtain ⟨x, -, rfl⟩ := List.mem_map.mp hx
    obtain ⟨_, hx', heq⟩ := List.mem_map.mp hp'
    obtain ⟨x', -, rfl⟩ := List.mem_map.mp hx'
    exact hname (congrArg Prod.fst heq).symm

/-- Whether an object has an extra value for a dispatcher under a key, if its repeated keys are
resolved. -/
def Configures (v : Json) (name key : String) (value : Json) : Prop :=
  ∃ members, (name, .obj members) ∈ v.resolveKeys.members ∧ (key, value) ∈ members ∧
    Dispatcher.IsExtra (key, value)

theorem mem_extras_iff_exists {name key : String} {value : Json} :
    ((name, key), value) ∈ d.extras ↔
      ∃ dispatcher, (name, dispatcher) ∈ d.entries.entries ∧
        (key, value) ∈ dispatcher.extra.entries := by
  simp only [extras, List.mem_flatMap, List.mem_map, Prod.mk.injEq]
  constructor
  · rintro ⟨⟨_, dispatcher⟩, he, ⟨_, _⟩, hx, ⟨rfl, rfl⟩, rfl⟩
    exact ⟨dispatcher, he, hx⟩
  · rintro ⟨dispatcher, he, hx⟩
    exact ⟨_, he, _, hx, ⟨rfl, rfl⟩, rfl⟩

/-- The extra values of a configuration are those of the object that it's read from. -/
theorem mem_extras_iff (h : decoder v = .ok d) {name key : String} {value : Json} :
    ((name, key), value) ∈ d.extras ↔ Configures v name key value := by
  rw [mem_extras_iff_exists, entries_of_decoder h, Configures]
  have hextra {members : List (String × Json)} (hm : (name, .obj members) ∈ v.resolveKeys.members) :
      (key, value) ∈ (members.foldl Dispatcher.readMember {}).extra.entries ↔
        (key, value) ∈ members ∧ Dispatcher.IsExtra (key, value) := by
    obtain ⟨w, hw⟩ := Json.exists_resolveKeys hm
    have hnodup := w.nodup_resolveKeys
    rw [← hw] at hnodup
    exact Dispatcher.mem_extra_iff hnodup
  constructor
  · rintro ⟨dispatcher, he, hx⟩
    obtain ⟨⟨_, w⟩, hw, he⟩ := List.mem_filterMap.mp he
    obtain ⟨rfl, hread⟩ := of_read? he
    cases w with
    | str s =>
      obtain rfl := Option.some.inj hread
      cases hx
    | obj members =>
      obtain rfl := Option.some.inj hread
      exact ⟨members, hw, (hextra hw).mp hx⟩
    | null | bool _ | int _ | float _ | arr _ => cases hread
  · rintro ⟨members, hm, hx⟩
    exact ⟨_, List.mem_filterMap.mpr ⟨_, hm, read?_obj name members⟩, (hextra hm).mpr hx⟩

end Dispatchers

end RequestRouting
