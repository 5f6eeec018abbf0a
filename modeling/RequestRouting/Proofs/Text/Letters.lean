import RequestRouting.Text.Cut

/-!
# The case of letters

Only the 26 letters of ASCII have a case. All other characters stay as they are in lower case, and
aren't what any other character becomes.
-/

namespace RequestRouting.Text

variable {c : Char}

theorem toNat_toLower (c : Char) : c.toLower.toNat =
    if 0x41 ≤ c.toNat ∧ c.toNat ≤ 0x5A then c.toNat + 0x20 else c.toNat := by
  have hcapital : (c.val ≥ 'A'.val ∧ c.val ≤ 'Z'.val) ↔ 0x41 ≤ c.toNat ∧ c.toNat ≤ 0x5A :=
    and_congr UInt32.le_iff_toNat_le UInt32.le_iff_toNat_le
  unfold Char.toLower
  split
  · rename_i h
    rw [if_pos (hcapital.mp h)]
    change (c.toNat + 0x20) % 2 ^ 32 = c.toNat + 0x20
    have := hcapital.mp h
    omega
  · rename_i h
    rw [if_neg (mt hcapital.mpr h)]

theorem toLower_eq_self (h : ¬(0x41 ≤ c.toNat ∧ c.toNat ≤ 0x5A)) : c.toLower = c :=
  Char.toNat_inj.mp (by rw [toNat_toLower, if_neg h])

@[simp] theorem toLower_toLower (c : Char) : c.toLower.toLower = c.toLower := by
  refine toLower_eq_self ?_
  rw [toNat_toLower]
  split <;> omega

theorem toLower_of_isBlank (h : isBlank c = true) : c.toLower = c := by
  refine toLower_eq_self ?_
  simp only [isBlank, Bool.or_eq_true, Bool.and_eq_true, decide_eq_true_eq, beq_iff_eq] at h
  omega

@[simp] theorem lower_lower (s : String) : lower (lower s) = lower s := by
  simp [lower, Function.comp_def]

end RequestRouting.Text
