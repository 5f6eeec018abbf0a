import RequestRouting.Dispatch.Table
import RequestRouting.Proofs.Ordered

/-!
# References to dispatchers

Dispatches refer to dispatchers by name, or to the default one. Each reference marks the dispatcher,
and adds it at the end of the table if it isn't configured. So the table has all configured
dispatchers in their order and with their values, and after them the others that were referred to,
in the order of the first references.
-/

namespace RequestRouting

namespace DispatchTable

variable {t : DispatchTable} {name : String} {refs : List (Option String)}

/-- The names of the targets, in order. -/
def names (t : DispatchTable) : List String := t.entries.map (·.target.name)

/-- The names that are referred to. -/
def named (t : DispatchTable) (refs : List (Option String)) : List String :=
  refs.map (·.getD t.defaultName)

/-- The names that are referred to without being in the table, in the order of the first
references. -/
def unknown (t : DispatchTable) (refs : List (Option String)) : List String :=
  ((t.named refs).filter (· ∉ t.names)).eraseDups

/-- The table after references that are made one after another. -/
def referenceAll (t : DispatchTable) (refs : List (Option String)) : DispatchTable :=
  refs.foldl reference t

namespace Entry

/-- The entry that is added for a dispatcher that isn't in the table. -/
def added (name : String) : Entry := { target := .ofDispatcher name {}, referenced := true }

/-- The entry after references to the given names. -/
def marked (names : List String) (e : Entry) : Entry :=
  { e with referenced := e.referenced || names.contains e.target.name }

theorem marked_of_not_mem {e : Entry} {names : List String} (h : e.target.name ∉ names) :
    e.marked names = e := by
  simp [marked, h]

theorem marked_append (a b : List String) (e : Entry) :
    e.marked (a ++ b) = (e.marked a).marked b := by
  rw [marked, List.contains_append, ← Bool.or_assoc]
  rfl

end Entry

theorem mark_append_of_not_mem {l : List Entry} (h : name ∉ l.map (·.target.name))
    (rest : List Entry) : mark name (l ++ rest) = l ++ mark name rest := by
  induction l with
  | nil => rfl
  | cons e l ih =>
    obtain ⟨hfirst, hl⟩ := not_or.mp (mt List.mem_cons.mpr h)
    rw [List.cons_append, mark, if_neg (Ne.symm hfirst), ih hl, List.cons_append]

theorem mark_of_not_mem {l : List Entry} (h : name ∉ l.map (·.target.name)) :
    mark name l = l ++ [.added name] := by
  have happend := mark_append_of_not_mem h []
  rwa [List.append_nil] at happend

theorem mark_of_mem {l : List Entry} (h : (l.map (·.target.name)).Nodup)
    (hm : name ∈ l.map (·.target.name)) : mark name l = l.map (Entry.marked [name]) := by
  induction l with
  | nil => cases hm
  | cons e rest ih =>
    obtain ⟨hfirst, hrest⟩ := List.nodup_cons.mp h
    rw [mark, List.map_cons]
    by_cases he : e.target.name = name
    · have hothers : rest.map (Entry.marked [name]) = rest := by
        refine (List.map_congr_left fun other ho => ?_).trans (List.map_id _)
        refine Entry.marked_of_not_mem fun heq => ?_
        exact hfirst (List.mem_map.mpr ⟨other, ho, (List.mem_singleton.mp heq).trans he.symm⟩)
      rw [if_pos he, hothers]
      simp [Entry.marked, he]
    · have hmem : name ∈ rest.map (·.target.name) :=
        (List.mem_cons.mp hm).resolve_left (Ne.symm he)
      rw [if_neg he, ih hrest hmem, Entry.marked_of_not_mem (by simpa using he)]

theorem mem_unknown : name ∈ t.unknown refs ↔ name ∈ t.named refs ∧ name ∉ t.names := by
  rw [unknown, List.mem_eraseDups, List.mem_filter, decide_eq_true_iff]

theorem named_concat (t : DispatchTable) (refs : List (Option String)) (name? : Option String) :
    t.named (refs ++ [name?]) = t.named refs ++ [name?.getD t.defaultName] :=
  List.map_append

/-- A name is unknown at its first reference only. -/
theorem unknown_concat (t : DispatchTable) (refs : List (Option String)) (name? : Option String) :
    t.unknown (refs ++ [name?]) =
      if name?.getD t.defaultName ∈ t.names ++ t.unknown refs then t.unknown refs
      else t.unknown refs ++ [name?.getD t.defaultName] := by
  rw [unknown, named_concat, List.filter_append]
  generalize name?.getD t.defaultName = name
  by_cases ht : name ∈ t.names
  · have hknown : [name].filter (· ∉ t.names) = [] := by simp [ht]
    rw [hknown, List.append_nil, if_pos (List.mem_append_left _ ht), unknown]
  · have hnew : [name].filter (· ∉ t.names) = [name] := by simp [ht]
    rw [hnew, Ordered.eraseDups_concat]
    refine if_congr ?_ rfl rfl
    rw [List.mem_append, or_iff_right ht, unknown, List.mem_eraseDups]

theorem nodup_names_append_unknown (h : t.names.Nodup) (refs : List (Option String)) :
    (t.names ++ t.unknown refs).Nodup := by
  refine List.nodup_append.mpr ⟨h, Ordered.nodup_eraseDups _, ?_⟩
  rintro name ht _ hu rfl
  exact (mem_unknown.mp hu).2 ht

/-- What becomes of the entries by a reference. -/
theorem entries_reference (h : t.names.Nodup) (name? : Option String) :
    (t.reference name?).entries =
      if name?.getD t.defaultName ∈ t.names then
        t.entries.map (Entry.marked [name?.getD t.defaultName])
      else t.entries ++ [Entry.added (name?.getD t.defaultName)] := by
  split
  · rename_i hm
    exact mark_of_mem h hm
  · rename_i hm
    exact mark_of_not_mem hm

theorem default_referenceAll (t : DispatchTable) (refs : List (Option String)) :
    (t.referenceAll refs).default = t.default := by
  induction refs generalizing t with
  | nil => rfl
  | cons name? rest ih => exact ih (t.reference name?)

theorem referenceAll_concat (t : DispatchTable) (refs : List (Option String))
    (name? : Option String) :
    t.referenceAll (refs ++ [name?]) = (t.referenceAll refs).reference name? :=
  List.foldl_append

/-- Marks don't change names, and what is added are names that were unknown. -/
theorem names_of_entries {t' : DispatchTable} (h : t'.entries =
    t.entries.map (Entry.marked (t.named refs)) ++ (t.unknown refs).map Entry.added) :
    t'.names = t.names ++ t.unknown refs := by
  rw [names, h, List.map_append, List.map_map, List.map_map]
  exact congrArg _ (List.map_id _)

/-- What becomes of the entries by any number of references. -/
theorem entries_referenceAll (h : t.names.Nodup) (refs : List (Option String)) :
    (t.referenceAll refs).entries =
      t.entries.map (Entry.marked (t.named refs)) ++ (t.unknown refs).map Entry.added := by
  induction refs using List.reverseRecOn with
  | nil =>
    have hnil (e : Entry) : e.marked [] = e := Entry.marked_of_not_mem List.not_mem_nil
    exact ((List.append_nil _).trans (List.map_id'' hnil _)).symm
  | append_singleton refs name? ih =>
    have hnames : (t.referenceAll refs).names = t.names ++ t.unknown refs := names_of_entries ih
    have hnodup : (t.referenceAll refs).names.Nodup := by
      rw [hnames]
      exact nodup_names_append_unknown h refs
    rw [referenceAll_concat, entries_reference hnodup, hnames, defaultName, default_referenceAll,
      ← defaultName, unknown_concat, named_concat]
    generalize name?.getD t.defaultName = name
    by_cases hm : name ∈ t.names ++ t.unknown refs
    · have hcomp : Entry.marked [name] ∘ Entry.marked (t.named refs) =
          Entry.marked (t.named refs ++ [name]) := by
        funext e
        exact (Entry.marked_append _ _ e).symm
      rw [if_pos hm, if_pos hm, ih, List.map_append, List.map_map, List.map_map, hcomp]
      rfl
    · have hentries : t.entries.map (Entry.marked (t.named refs ++ [name])) =
          t.entries.map (Entry.marked (t.named refs)) := by
        refine List.map_congr_left fun e he => ?_
        rw [Entry.marked_append]
        refine Entry.marked_of_not_mem fun heq => hm (List.mem_append_left _ ?_)
        exact List.mem_map.mpr ⟨e, he, List.mem_singleton.mp heq⟩
      rw [if_neg hm, if_neg hm, ih, List.map_append, List.append_assoc, hentries]
      rfl

theorem names_referenceAll (h : t.names.Nodup) (refs : List (Option String)) :
    (t.referenceAll refs).names = t.names ++ t.unknown refs :=
  names_of_entries (entries_referenceAll h refs)

theorem nodup_names_referenceAll (h : t.names.Nodup) (refs : List (Option String)) :
    (t.referenceAll refs).names.Nodup := by
  rw [names_referenceAll h]
  exact nodup_names_append_unknown h refs

/-- Whatever is referred to is in the table. -/
theorem mem_names_of_mem_named (h : t.names.Nodup) (hn : name ∈ t.named refs) :
    name ∈ (t.referenceAll refs).names := by
  rw [names_referenceAll h, List.mem_append, mem_unknown]
  exact (em _).imp_right fun ht => ⟨hn, ht⟩

/-- The targets with the extra values of their dispatchers, in order. -/
def values (t : DispatchTable) : List (DispatchTarget × Keyed String Json) :=
  t.entries.map fun e => (e.target, e.extra)

/-- All that was in the table stays as it was, and what was unknown comes after it. -/
theorem values_referenceAll (h : t.names.Nodup) (refs : List (Option String)) :
    (t.referenceAll refs).values =
      t.values ++ (t.unknown refs).map fun name =>
        (.ofDispatcher name {}, ({} : Dispatcher).extra) := by
  rw [values, entries_referenceAll h, List.map_append, List.map_map, List.map_map]
  rfl

/-- If no name is repeated, a target is found under its name. -/
theorem get?_of_mem (h : t.names.Nodup) {target : DispatchTarget} (ht : target ∈ t.targets) :
    t.get? target.name = some target := by
  obtain ⟨e, he, rfl⟩ := List.mem_map.mp ht
  rw [get?, Ordered.find?_of_nodup h he]
  rfl

section Configured

variable {d : Dispatchers}

theorem nodup_names_ofDispatchers (h : d.entries.keys.Nodup) : (ofDispatchers d).names.Nodup := by
  rwa [names, ofDispatchers, List.map_map]

/-- Of the dispatchers that are configured and those that are added, the ones that are referred to
are marked, and there's no URI for any of them. -/
theorem of_mem_entries (h : d.entries.keys.Nodup) {e : Entry}
    (he : e ∈ ((ofDispatchers d).referenceAll refs).entries) :
    e.referenced = decide (e.target.name ∈ (ofDispatchers d).named refs) ∧ e.target.uri = none := by
  rw [entries_referenceAll (nodup_names_ofDispatchers h), List.mem_append] at he
  rcases he with he | he
  · obtain ⟨_, hfirst, rfl⟩ := List.mem_map.mp he
    obtain ⟨_, -, rfl⟩ := List.mem_map.mp hfirst
    exact ⟨by simp [Entry.marked], rfl⟩
  · obtain ⟨name, hname, rfl⟩ := List.mem_map.mp he
    exact ⟨(decide_eq_true (mem_unknown.mp hname).1).symm, rfl⟩

/-- The targets that are referenced are those that were referred to, in the order of the table. -/
theorem referenced_referenceAll (h : d.entries.keys.Nodup) (refs : List (Option String)) :
    ((ofDispatchers d).referenceAll refs).referenced =
      ((ofDispatchers d).referenceAll refs).targets.filter
        (·.name ∈ (ofDispatchers d).named refs) := by
  rw [referenced, targets, List.filter_map]
  exact congrArg _ (List.filter_congr fun e he => (of_mem_entries h he).1)

end Configured

end DispatchTable

end RequestRouting
