import Mathlib.Data.List.Perm.Basic
import RequestRouting.Config.Settings
import RequestRouting.Proofs.Keyed
import RequestRouting.Proofs.Text.Letters

/-!
# The order of media types

The media types of the settings are put into the table one after another, in any order, under their
keys in lower case and without leading dots. So several of them may be put in the same place, where
the last one stays.
-/

namespace RequestRouting

namespace MediaTypes

/-- Whether two tables tell the same of every extension and every path. -/
def Agree (types types' : MediaTypes) : Prop :=
  (∀ extension, types.ofExtension? extension = types'.ofExtension? extension) ∧
    ∀ path, types.forPath path = types'.forPath path

/-- Whether entries that are put in the same place have the same media type. -/
def IsConsistent (entries : List (String × String)) : Prop :=
  ∀ e ∈ entries, ∀ e' ∈ entries, key e.1 = key e'.1 → e.2 = e'.2

variable {types types' : MediaTypes} {entries order order' : List (String × String)} {k : String}

theorem agree_of_get? (h : ∀ k, types.get? k = types'.get? k) : Agree types types' := by
  have hext (extension : String) : types.ofExtension? extension = types'.ofExtension? extension :=
    h (Text.lower extension)
  refine ⟨hext, fun path => ?_⟩
  rw [forPath, forPath, funext hext]

/-- Entries are put in place as they are set by their keys. -/
theorem putAll_eq (types : MediaTypes) (entries : List (String × String)) :
    types.putAll entries = types.insertMany (entries.map fun e => (key e.1, e.2)) := by
  rw [putAll, Keyed.insertMany, List.foldl_map]
  rfl

/-- What the table has at a key is one of the entries that are put there, if there are any. -/
theorem get?_putAll (types : MediaTypes) (entries : List (String × String)) (k : String) :
    (∃ e ∈ entries, key e.1 = k ∧ (types.putAll entries).get? k = some e.2) ∨
      (∀ e ∈ entries, key e.1 ≠ k) ∧ (types.putAll entries).get? k = types.get? k := by
  rw [putAll_eq]
  by_cases hk : k ∈ (entries.map fun e => (key e.1, e.2)).map (·.1)
  · obtain ⟨v, hv, hget⟩ := Keyed.exists_get?_insertMany types hk
    obtain ⟨e, he, hpair⟩ := List.mem_map.mp hv
    obtain ⟨rfl, rfl⟩ := Prod.mk.inj hpair
    exact Or.inl ⟨e, he, rfl, hget⟩
  · refine Or.inr ⟨fun e he hke => hk ?_, Keyed.get?_insertMany_of_not_mem types hk⟩
    exact List.mem_map.mpr ⟨_, List.mem_map_of_mem he, hke⟩

/-- The order makes no difference where entries that are put in the same place are alike. -/
theorem agree_of_perm (h : IsConsistent entries) (ho : order.Perm entries)
    (ho' : order'.Perm entries) (types : MediaTypes) :
    Agree (types.putAll order) (types.putAll order') := by
  refine agree_of_get? fun k => ?_
  rcases get?_putAll types order k with ⟨e, he, hk, hget⟩ | ⟨hn, hget⟩
  · rcases get?_putAll types order' k with ⟨e', he', hk', hget'⟩ | ⟨hn', -⟩
    · rw [hget, hget', h e (ho.mem_iff.mp he) e' (ho'.mem_iff.mp he') (hk.trans hk'.symm)]
    · exact absurd hk (hn' e (ho'.mem_iff.mpr (ho.mem_iff.mp he)))
  · rcases get?_putAll types order' k with ⟨e', he', hk', -⟩ | ⟨-, hget'⟩
    · exact absurd hk' (hn e' (ho.mem_iff.mpr (ho'.mem_iff.mp he')))
    · rw [hget, hget']

/-- Any entry may be the last one, which is the one that counts. -/
theorem exists_perm_last {e : String × String} (he : e ∈ entries) (types : MediaTypes) :
    ∃ order, order.Perm entries ∧ (types.putAll order).ofExtension? (key e.1) = some e.2 := by
  obtain ⟨before, after, rfl⟩ := List.append_of_mem he
  refine ⟨before ++ after ++ [e], ?_, ?_⟩
  · rw [List.append_assoc]
    exact (List.perm_append_singleton e after).append_left before
  · have hkey : Text.lower (key e.1) = key e.1 := Text.lower_lower _
    rw [ofExtension?, hkey, putAll, List.foldl_append]
    exact Keyed.get?_insert_self _ _ _

end MediaTypes

namespace Settings

/-- Whether a table is what the settings make when their media types are gone through in some
order. -/
def IsTable (s : Settings) (types : MediaTypes) : Prop :=
  ∃ order : List (String × String), order.Perm s.mediaTypes.entries ∧
    types = MediaTypes.common.putAll order

/-- The order in which media types are gone through, which is that of their keys or any other one,
makes no difference if and only if those that are put in the same place are the same. -/
theorem isTable_agree_iff (s : Settings) : s.IsTable s.types ∧
    ((∀ types types', s.IsTable types → s.IsTable types' → types.Agree types') ↔
      MediaTypes.IsConsistent s.mediaTypes.entries) := by
  refine ⟨⟨_, .refl _, rfl⟩, ?_, ?_⟩
  · intro h e he e' he' hkey
    obtain ⟨order, ho, hget⟩ := MediaTypes.exists_perm_last he MediaTypes.common
    obtain ⟨order', ho', hget'⟩ := MediaTypes.exists_perm_last he' MediaTypes.common
    have hagree := (h _ _ ⟨order, ho, rfl⟩ ⟨order', ho', rfl⟩).1 (MediaTypes.key e.1)
    rw [hget, hkey, hget'] at hagree
    exact Option.some.inj hagree
  · rintro h types types' ⟨order, ho, rfl⟩ ⟨order', ho', rfl⟩
    exact MediaTypes.agree_of_perm h ho ho' _

/-- The keys `.md` and `md` differ, but are put in the same place. -/
theorem not_isTable_agree : ¬∀ s : Settings, (s.mediaTypes.entries.map (·.1)).Nodup →
    ∀ types types', s.IsTable types → s.IsTable types' → types.Agree types' := by
  intro h
  have hagree := h { mediaTypes := ⟨[(".md", "text/a"), ("md", "text/b")]⟩ } (by decide)
    (MediaTypes.common.putAll [(".md", "text/a"), ("md", "text/b")])
    (MediaTypes.common.putAll [("md", "text/b"), (".md", "text/a")])
    ⟨_, .refl _, rfl⟩ ⟨_, .swap _ _ _, rfl⟩
  exact absurd (hagree.1 "md") (by decide)

end Settings

end RequestRouting
