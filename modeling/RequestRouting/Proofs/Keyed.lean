import Mathlib.Data.List.Nodup
import RequestRouting.Keyed

/-!
# Entries of maps

What a map holds after an entry was placed or erased, without a word on the order of the entries.
-/

namespace RequestRouting.Keyed

variable {κ α : Type} [Ord κ]

theorem mem_place {k : κ} {v : α} {l : List (κ × α)} {entry : κ × α} (h : entry ∈ place k v l) :
    entry = (k, v) ∨ entry ∈ l := by
  induction l with
  | nil => exact Or.inl (List.mem_singleton.mp h)
  | cons first rest ih =>
    simp only [place] at h
    split at h
    · exact List.mem_cons.mp h
    · exact (List.mem_cons.mp h).imp_right (List.mem_cons_of_mem _)
    · rcases List.mem_cons.mp h with rfl | h
      · exact Or.inr List.mem_cons_self
      · exact (ih h).imp_right (List.mem_cons_of_mem _)

theorem mem_erase {m : Keyed κ α} {k : κ} {entry : κ × α} :
    entry ∈ (m.erase k).entries ↔ entry ∈ m.entries ∧ compare k entry.1 ≠ .eq := by
  simp [erase]

theorem mem_place_self (k : κ) (v : α) (l : List (κ × α)) : (k, v) ∈ place k v l := by
  induction l with
  | nil => exact List.mem_singleton_self _
  | cons first rest ih =>
    simp only [place]
    split
    · exact List.mem_cons_self
    · exact List.mem_cons_self
    · exact List.mem_cons_of_mem _ ih

theorem mem_insertMany {m : Keyed κ α} {entries : List (κ × α)} {entry : κ × α}
    (h : entry ∈ (m.insertMany entries).entries) : entry ∈ m.entries ∨ entry ∈ entries := by
  induction entries generalizing m with
  | nil => exact Or.inl h
  | cons first rest ih =>
    rcases ih h with hm | hm
    · exact (mem_place hm).elim (fun he => Or.inr (he ▸ List.mem_cons_self)) Or.inl
    · exact Or.inr (List.mem_cons_of_mem _ hm)

variable [Std.LawfulEqOrd κ]

/-- Placing an entry keeps those of other keys. -/
theorem mem_place_of_ne {k : κ} (v : α) {l : List (κ × α)} {entry : κ × α} (h : entry ∈ l)
    (hk : entry.1 ≠ k) : entry ∈ place k v l := by
  induction l with
  | nil => cases h
  | cons first rest ih =>
    simp only [place]
    split
    · exact List.mem_cons_of_mem _ h
    · rename_i he
      rcases List.mem_cons.mp h with rfl | h
      · exact absurd (Std.LawfulEqOrd.eq_of_compare he).symm hk
      · exact List.mem_cons_of_mem _ h
    · rcases List.mem_cons.mp h with rfl | h
      · exact List.mem_cons_self
      · exact List.mem_cons_of_mem _ (ih h)

theorem mem_of_find? {k : κ} {v : α} {l : List (κ × α)} (h : find? k l = some v) : (k, v) ∈ l := by
  induction l with
  | nil => simp [find?] at h
  | cons first rest ih =>
    obtain ⟨k', v'⟩ := first
    simp only [find?] at h
    split at h
    · rename_i he
      obtain rfl : k = k' := by simpa using he
      obtain rfl : v' = v := by simpa using h
      exact List.mem_cons_self
    · exact List.mem_cons_of_mem _ (ih h)

theorem not_mem_of_find? {k : κ} {l : List (κ × α)} (h : find? k l = none) {entry : κ × α}
    (he : entry ∈ l) : entry.1 ≠ k := by
  induction l with
  | nil => cases he
  | cons first rest ih =>
    obtain ⟨k', v'⟩ := first
    simp only [find?] at h
    split at h
    · cases h
    · rename_i hc
      rcases List.mem_cons.mp he with rfl | he
      · exact fun hk => hc (by simpa using hk.symm)
      · exact ih h he

/-- Values of other keys don't change the value of a key. -/
theorem get?_insertMany_of_not_mem (m : Keyed κ α) {k : κ} {entries : List (κ × α)}
    (h : k ∉ entries.map (·.1)) : (m.insertMany entries).get? k = m.get? k := by
  induction entries generalizing m with
  | nil => rfl
  | cons entry entries ih =>
    rw [List.map_cons, List.mem_cons, not_or] at h
    exact (ih (m.insert entry.1 entry.2) h.2).trans (get?_insert_of_ne m h.1 entry.2)

/-- A key that is set gets one of the values it's set to. -/
theorem exists_get?_insertMany (m : Keyed κ α) {k : κ} {entries : List (κ × α)}
    (h : k ∈ entries.map (·.1)) :
    ∃ v, (k, v) ∈ entries ∧ (m.insertMany entries).get? k = some v := by
  induction entries generalizing m with
  | nil => cases h
  | cons entry entries ih =>
    by_cases hk : k ∈ entries.map (·.1)
    · obtain ⟨v, hv, hget⟩ := ih (m.insert entry.1 entry.2) hk
      exact ⟨v, List.mem_cons_of_mem _ hv, hget⟩
    · obtain rfl : k = entry.1 := (List.mem_cons.mp h).resolve_right hk
      refine ⟨entry.2, List.mem_cons_self, ?_⟩
      exact (get?_insertMany_of_not_mem (m.insert entry.1 entry.2) hk).trans
        (get?_insert_self m entry.1 entry.2)

/-- If no key is set twice, each has the value it's set to. -/
theorem get?_ofList_of_mem {entries : List (κ × α)} (h : (entries.map (·.1)).Nodup) {k : κ} {v : α}
    (hm : (k, v) ∈ entries) : (ofList entries).get? k = some v := by
  obtain ⟨v', hv, hget⟩ := exists_get?_insertMany {} (List.mem_map_of_mem hm)
  obtain rfl : v = v' := congrArg Prod.snd (List.inj_on_of_nodup_map h hm hv rfl)
  exact hget

/-- If no key is set twice, a map has the entries that were set. -/
theorem mem_ofList_iff {entries : List (κ × α)} (h : (entries.map (·.1)).Nodup) {entry : κ × α} :
    entry ∈ (ofList entries).entries ↔ entry ∈ entries := by
  constructor
  · intro hm
    exact (mem_insertMany hm).resolve_left List.not_mem_nil
  · intro hm
    exact mem_of_find? (get?_ofList_of_mem h hm)

/-- Values are set alike in maps that agree on the keys without one. -/
theorem get?_insertMany_congr {m m' : Keyed κ α} {k : κ} {entries : List (κ × α)}
    (h : k ∉ entries.map (·.1) → m.get? k = m'.get? k) :
    (m.insertMany entries).get? k = (m'.insertMany entries).get? k := by
  induction entries generalizing m m' with
  | nil => exact h (by simp)
  | cons entry entries ih =>
    refine @ih (m.insert entry.1 entry.2) (m'.insert entry.1 entry.2) fun hn => ?_
    by_cases hk : k = entry.1
    · rw [hk, get?_insert_self, get?_insert_self]
    · rw [get?_insert_of_ne _ hk, get?_insert_of_ne _ hk]
      exact h (by simpa [hk] using hn)

theorem get?_insertIfAbsent_of_ne (m : Keyed κ α) {k k' : κ} (h : k' ≠ k) (v : α) :
    (m.insertIfAbsent k v).get? k' = m.get? k' := by
  unfold insertIfAbsent
  by_cases hc : m.contains k = true
  · rw [if_pos hc]
  · rw [if_neg hc, get?_insert_of_ne m h]

/-- Removing a key doesn't change the value of another one. -/
theorem get?_erase_of_ne (m : Keyed κ α) {k k' : κ} (h : k' ≠ k) :
    (m.erase k).get? k' = m.get? k' := by
  have hf (l : List (κ × α)) : find? k' (l.filter fun entry => compare k entry.1 != .eq) =
      find? k' l := by
    induction l with
    | nil => rfl
    | cons entry rest ih =>
      obtain ⟨k₁, v⟩ := entry
      by_cases he : k = k₁
      · subst he
        simp [find?, h, ih]
      · have hc : (compare k k₁ != .eq) = true := by simpa using he
        rw [List.filter_cons_of_pos (by exact hc), find?, find?, ih]
  exact hf m.entries

/-! Keys that have a value keep having one, unless they're removed. -/

theorem contains_insert {m : Keyed κ α} {k : κ} (h : m.contains k = true) (k' : κ) (v : α) :
    (m.insert k' v).contains k = true := by
  by_cases hk : k = k'
  · simp [contains, hk]
  · rw [contains, get?_insert_of_ne m hk]
    exact h

theorem contains_insertMany {m : Keyed κ α} {k : κ} (h : m.contains k = true)
    (entries : List (κ × α)) : (m.insertMany entries).contains k = true := by
  induction entries generalizing m with
  | nil => exact h
  | cons entry entries ih => exact ih (contains_insert h entry.1 entry.2)

theorem contains_insertIfAbsent {m : Keyed κ α} {k : κ} (h : m.contains k = true) (k' : κ) (v : α) :
    (m.insertIfAbsent k' v).contains k = true := by
  unfold insertIfAbsent
  split
  · exact h
  · exact contains_insert h k' v

/-! Entries in ascending order of their keys, of which no two have the same key. -/

section Ascending

/-- Whether entries are in ascending order of their keys. -/
def IsAscending (l : List (κ × α)) : Prop := l.Pairwise fun a b => compare a.1 b.1 = .lt

/-- Of entries in ascending order, those that are left when others are removed are found as
before. -/
theorem find?_filter {l : List (κ × α)} (h : IsAscending l) (k : κ) (p : κ × α → Bool) :
    find? k (l.filter p) = (find? k l).filter fun v => p (k, v) := by
  induction l with
  | nil => rfl
  | cons first rest ih =>
    obtain ⟨k', v'⟩ := first
    obtain ⟨hfirst, hrest⟩ := List.pairwise_cons.mp h
    by_cases hk : k = k'
    · subst hk
      have hnone : find? k (rest.filter p) = none := by
        cases hf : find? k (rest.filter p) with
        | none => rfl
        | some v =>
          have hlt : compare k k = .lt := hfirst _ (List.mem_filter.mp (mem_of_find? hf)).1
          rw [Std.LawfulEqOrd.compare_eq_iff_eq.mpr rfl] at hlt
          cases hlt
      cases hp : p (k, v') <;> simp [find?, hp, hnone, Option.filter]
    · cases hp : p (k', v') <;> simp [find?, hp, hk, ih hrest]

/-- No two entries in ascending order have the same key. -/
theorem IsAscending.nodup {l : List (κ × α)} (h : IsAscending l) : (l.map (·.1)).Nodup := by
  refine List.pairwise_map.mpr (h.imp fun {a b} hlt heq => ?_)
  rw [heq, Std.LawfulEqOrd.compare_eq_iff_eq.mpr rfl] at hlt
  cases hlt

variable [Std.TransOrd κ]

theorem IsAscending.place {l : List (κ × α)} (h : IsAscending l) (k : κ) (v : α) :
    IsAscending (place k v l) := by
  induction l with
  | nil => exact List.pairwise_singleton _ _
  | cons first rest ih =>
    obtain ⟨hfirst, hrest⟩ := List.pairwise_cons.mp h
    simp only [Keyed.place]
    split
    · rename_i hlt
      refine List.pairwise_cons.mpr ⟨fun entry he => ?_, h⟩
      rcases List.mem_cons.mp he with rfl | he
      · exact hlt
      · exact Std.TransCmp.lt_trans hlt (hfirst entry he)
    · rename_i heq
      obtain rfl := Std.LawfulEqOrd.eq_of_compare heq
      exact List.pairwise_cons.mpr ⟨hfirst, hrest⟩
    · rename_i hgt
      refine List.pairwise_cons.mpr ⟨fun entry he => ?_, ih hrest⟩
      rcases mem_place he with rfl | he
      · exact Std.OrientedCmp.gt_iff_lt.mp hgt
      · exact hfirst entry he

theorem IsAscending.insertMany {m : Keyed κ α} (h : IsAscending m.entries)
    (entries : List (κ × α)) : IsAscending (m.insertMany entries).entries := by
  induction entries generalizing m with
  | nil => exact h
  | cons entry entries ih => exact ih (h.place entry.1 entry.2)

theorem isAscending_ofList (entries : List (κ × α)) : IsAscending (ofList entries).entries :=
  IsAscending.insertMany .nil entries

end Ascending

end RequestRouting.Keyed
