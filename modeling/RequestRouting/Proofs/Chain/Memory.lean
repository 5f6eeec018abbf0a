import RequestRouting.Proofs.Keyed
import RequestRouting.Routing.Chain

/-!
# What a chain remembers

A chain changes what it remembers in four ways only: it forgets one winner or all of them, and it
remembers the winner of a search, after which it may forget those that expired. Whatever is
remembered is therefore the winner of some search, which is all that serving relies on.
-/

namespace RequestRouting.Chain

/-- Every remembered winner is the one that a search for its reference finds. -/
def Sound (winner : String → Option Nat) (c : Cache) : Prop :=
  ∀ entry ∈ c.winners.entries, winner entry.1 = some entry.2.1

/-- The changes that a chain makes to what it remembers, where `winner` is what searches find. -/
inductive Evolves (winner : String → Option Nat) (c : Cache) : Cache → Prop where
  | refl : Evolves winner c c
  | forget {d : Cache} (reference : String) (h : Evolves winner c d) :
      Evolves winner c (d.forget reference)
  | clear {d : Cache} (h : Evolves winner c d) : Evolves winner c d.clear
  | remember {d : Cache} (ttl : Duration) (now : Time) (reference : String) (index : Nat)
      (found : winner reference = some index) (h : Evolves winner c d) :
      Evolves winner c (d.remember ttl now reference index)

variable {winner : String → Option Nat} {c d e : Cache}

/-! What is remembered after each change, entry by entry. -/

section Entries

variable {entry : String × Nat × Time} {reference : String} {index : Nat} {ttl : Duration}
  {now since : Time}

theorem mem_forget : entry ∈ (c.forget reference).winners.entries ↔
    entry ∈ c.winners.entries ∧ entry.1 ≠ reference := by
  rw [Cache.forget, Keyed.mem_erase]
  refine and_congr_right fun _ => not_congr ?_
  rw [Std.LawfulEqOrd.compare_eq_iff_eq]
  exact eq_comm

theorem mem_clear : entry ∉ c.clear.winners.entries := List.not_mem_nil

/-- Nothing but the new winner is added, even if those that expired are forgotten. -/
theorem mem_of_mem_remember (h : entry ∈ (c.remember ttl now reference index).winners.entries) :
    entry = (reference, index, now) ∨ entry ∈ c.winners.entries := by
  unfold Cache.remember at h
  dsimp only at h
  split at h
  · exact Keyed.mem_place ((List.mem_filter.mp h).1)
  · exact Keyed.mem_place h

/-- Winners that didn't expire are kept, unless there's a new one for their reference. -/
theorem mem_remember_of_mem (hl : Time.isWithin entry.2.2 ttl now = true)
    (h : entry = (reference, index, now) ∨ entry ∈ c.winners.entries ∧ entry.1 ≠ reference) :
    entry ∈ (c.remember ttl now reference index).winners.entries := by
  have hplace : entry ∈ Keyed.place reference (index, now) c.winners.entries := by
    rcases h with rfl | ⟨h, hne⟩
    · exact Keyed.mem_place_self _ _ _
    · exact Keyed.mem_place_of_ne _ h hne
  unfold Cache.remember
  dsimp only
  split
  · exact List.mem_filter.mpr ⟨hplace, hl⟩
  · exact hplace

/-- The winner that is offered a request first is one that's remembered and didn't expire. -/
theorem exists_of_winner? (h : c.winner? ttl now reference = some index) :
    ∃ since, (reference, index, since) ∈ c.winners.entries ∧
      Time.isWithin since ttl now = true := by
  unfold Cache.winner? at h
  split at h
  · rename_i i since he
    split at h
    · rename_i hl
      obtain rfl := Option.some.inj h
      exact ⟨since, Keyed.mem_of_find? he, hl⟩
    · cases h
  · cases h

end Entries

theorem Evolves.trans (h : Evolves winner c d) (h' : Evolves winner d e) : Evolves winner c e := by
  induction h' with
  | refl => exact h
  | forget reference _ ih => exact ih.forget reference
  | clear _ ih => exact ih.clear
  | remember ttl now reference index found _ ih => exact ih.remember ttl now reference index found

theorem sound_of_empty (h : c.winners = {}) : Sound winner c := by
  intro entry he
  rw [h] at he
  exact absurd he List.not_mem_nil

/-- Fewer winners are as sound as more of them. -/
theorem Sound.subset (h : Sound winner c) (hs : d.winners.entries ⊆ c.winners.entries) :
    Sound winner d := fun entry he => h entry (hs he)

theorem Sound.forget (h : Sound winner c) (reference : String) :
    Sound winner (c.forget reference) := h.subset List.filter_sublist.subset

theorem Sound.clear : Sound winner c.clear := sound_of_empty rfl

theorem Sound.remember (h : Sound winner c) (ttl : Duration) (now : Time) {reference : String}
    {index : Nat} (found : winner reference = some index) :
    Sound winner (c.remember ttl now reference index) := by
  have hi : Sound winner
      { winners := c.winners.insert reference (index, now), inserts := c.inserts + 1 } := by
    intro entry he
    rcases Keyed.mem_place he with rfl | he
    · exact found
    · exact h entry he
  simp only [Cache.remember]
  split
  · exact hi.subset List.filter_sublist.subset
  · exact hi

/-- No change that a chain makes leaves a winner behind that a search wouldn't find. -/
theorem Evolves.sound (h : Evolves winner c d) (hc : Sound winner c) : Sound winner d := by
  induction h with
  | refl => exact hc
  | forget reference _ ih => exact ih.forget reference
  | clear _ _ => exact Sound.clear
  | remember ttl now reference index found _ ih => exact ih.remember ttl now found

/-- The winner that is offered a request first is the one that a search finds. -/
theorem Sound.winner? (h : Sound winner c) {ttl : Duration} {now : Time} {reference : String}
    {index : Nat} (hw : c.winner? ttl now reference = some index) :
    winner reference = some index := by
  obtain ⟨since, he, -⟩ := exists_of_winner? hw
  exact h _ he

end RequestRouting.Chain
