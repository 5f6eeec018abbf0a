import RequestRouting.Text.Cut

/-!
# Laws of cutting and trimming

Removing a lead or a tail undoes putting it there, and trimming stops at the last character that
isn't trimmed. Texts are taken apart as lists of characters and put together again.
-/

namespace RequestRouting.Text

namespace Chars

variable {lead tail s rest before after : List Char}

theorem cut?_eq_none {mark : Char} (h : mark ∉ s) : cut? mark s = none := by
  induction s with
  | nil => rfl
  | cons c s ih =>
    rw [List.mem_cons, not_or] at h
    rw [cut?, if_neg fun he => h.1 he.symm, ih h.2]
    rfl

theorem eq_of_cut? {mark : Char} (h : cut? mark s = some (before, after)) :
    s = before ++ mark :: after := by
  induction s generalizing before with
  | nil => simp [cut?] at h
  | cons c s ih =>
    rw [cut?] at h
    split at h
    · rename_i hc
      obtain ⟨rfl, rfl⟩ : [] = before ∧ s = after := by simpa using h
      rw [hc, List.nil_append]
    · simp only [Option.map_eq_some_iff, Prod.exists, Prod.mk.injEq] at h
      obtain ⟨b, a, hs, rfl, rfl⟩ := h
      rw [ih hs, List.cons_append]

/-- The first mark is the one behind a text without marks. -/
theorem cut?_append {mark : Char} (h : mark ∉ before) (after : List Char) :
    cut? mark (before ++ mark :: after) = some (before, after) := by
  induction before with
  | nil => simp [cut?]
  | cons c before ih =>
    rw [List.mem_cons, not_or] at h
    simp [cut?, Ne.symm h.1, ih h.2]

theorem not_mem_of_cut? {mark : Char} (h : cut? mark s = none) : mark ∉ s := by
  induction s with
  | nil => simp
  | cons c s ih =>
    rw [cut?] at h
    split at h
    · cases h
    · rename_i hc
      rw [List.mem_cons, not_or]
      exact ⟨fun he => hc he.symm, ih (Option.map_eq_none_iff.mp h)⟩

theorem not_mem_of_cut?_eq_some {mark : Char} (h : cut? mark s = some (before, after)) :
    mark ∉ before := by
  induction s generalizing before with
  | nil => cases h
  | cons c s ih =>
    rw [cut?] at h
    split at h
    · obtain ⟨rfl, -⟩ := Prod.mk.inj (Option.some.inj h)
      exact List.not_mem_nil
    · rename_i hc
      obtain ⟨⟨b, a⟩, hs, he⟩ := Option.map_eq_some_iff.mp h
      obtain ⟨rfl, rfl⟩ := Prod.mk.inj he
      rw [List.mem_cons, not_or]
      exact ⟨Ne.symm hc, ih hs⟩

theorem dropLead?_eq_some : dropLead? lead s = some rest ↔ s = lead ++ rest := by
  induction lead generalizing s with
  | nil => simp [dropLead?]
  | cons l lead ih =>
    cases s with
    | nil => simp [dropLead?]
    | cons c s =>
      by_cases h : l = c
      · subst l; simp [dropLead?, ih]
      · simp [dropLead?, h, Ne.symm h]

theorem dropTail?_eq_some : dropTail? tail s = some before ↔ s = before ++ tail := by
  simp only [dropTail?, Option.map_eq_some_iff, dropLead?_eq_some]
  constructor
  · rintro ⟨a, ha, rfl⟩
    rw [← List.reverse_reverse s, ha, List.reverse_append, List.reverse_reverse]
  · rintro rfl
    exact ⟨before.reverse, List.reverse_append, List.reverse_reverse before⟩

/-- Nothing is trimmed exactly if the last character is kept. -/
theorem trimTail_eq_self (p : Char → Bool) :
    trimTail p s = s ↔ ∀ c, s.getLast? = some c → p c = false := by
  rw [trimTail, List.reverse_eq_iff, List.getLast?_eq_head?_reverse]
  cases s.reverse with
  | nil => simp
  | cons c r =>
    cases h : p c with
    | false => simp [h]
    | true =>
      simp only [List.dropWhile_cons, h, if_true, List.head?_cons, Option.some.injEq,
        forall_eq', Bool.true_eq_false, iff_false]
      intro he
      have hl := congrArg List.length he
      have := (List.dropWhile_sublist p (l := r)).length_le
      simp only [List.length_cons] at hl
      omega

theorem trimTail_append_of_pos {p : Char → Bool} (h : ∀ c ∈ tail, p c = true) :
    trimTail p (s ++ tail) = trimTail p s := by
  rw [trimTail, List.reverse_append, List.dropWhile_append_of_pos, trimTail]
  exact fun c hc => h c (List.mem_reverse.mp hc)

theorem trim_append_append {p : Char → Bool} (hl : ∀ c ∈ lead, p c = true)
    (ht : ∀ c ∈ tail, p c = true) : trim p (lead ++ s ++ tail) = trim p s := by
  rw [List.append_assoc, trim, List.dropWhile_append_of_pos hl, List.dropWhile_append, trim]
  split
  · rename_i hs
    rw [List.isEmpty_iff] at hs
    rw [hs, ← List.append_nil tail, List.dropWhile_append_of_pos ht]
    rfl
  · exact trimTail_append_of_pos ht

/-- Trimming doesn't get past a character that is kept. -/
theorem trimTail_append_of_mem {p : Char → Bool} {c : Char} (hc : c ∈ s) (h : p c = false)
    (lead : List Char) : trimTail p (lead ++ s) = lead ++ trimTail p s := by
  rw [trimTail, List.reverse_append, List.dropWhile_append, trimTail]
  split
  · rename_i hempty
    have hall := List.takeWhile_append_dropWhile (p := p) (l := s.reverse)
    rw [List.isEmpty_iff.mp hempty, List.append_nil] at hall
    have hp : p c = true := List.all_eq_true.mp List.all_takeWhile c
      (hall ▸ List.mem_reverse.mpr hc)
    rw [h] at hp
    cases hp
  · rw [List.reverse_append, List.reverse_reverse]

/-- What is trimmed never ends in a character to be trimmed. -/
theorem getLast?_trimTail (p : Char → Bool) {c : Char} (h : (trimTail p s).getLast? = some c) :
    p c = false := by
  rw [trimTail, List.getLast?_reverse] at h
  have hd := List.head?_dropWhile_not p s.reverse
  rwa [h] at hd

/-- What is trimmed never starts with a character to be trimmed. -/
theorem head?_trim (p : Char → Bool) {c : Char} (h : (trim p s).head? = some c) : p c = false := by
  obtain ⟨more, hm⟩ : trim p s <+: s.dropWhile p := by
    rw [trim, trimTail, List.prefix_iff_exists_append_eq]
    refine ⟨((s.dropWhile p).reverse.takeWhile p).reverse, ?_⟩
    rw [← List.reverse_append, List.takeWhile_append_dropWhile, List.reverse_reverse]
  have hd := List.head?_dropWhile_not p s
  rw [← hm, List.head?_append, h] at hd
  exact hd

/-- A text is what is left of it by trimming, with characters to be trimmed around that. -/
theorem exists_trim (p : Char → Bool) (s : List Char) : ∃ lead tail, s = lead ++ trim p s ++ tail ∧
    (∀ c ∈ lead, p c = true) ∧ ∀ c ∈ tail, p c = true := by
  refine ⟨s.takeWhile p, ((s.dropWhile p).reverse.takeWhile p).reverse, ?_, ?_, ?_⟩
  · rw [List.append_assoc, trim, trimTail, ← List.reverse_append, List.takeWhile_append_dropWhile,
      List.reverse_reverse, List.takeWhile_append_dropWhile]
  · exact fun c hc => List.all_eq_true.mp List.all_takeWhile c hc
  · exact fun c hc => List.all_eq_true.mp List.all_takeWhile c (List.mem_reverse.mp hc)

/-- Nothing is trimmed from a text that neither starts nor ends in a character to be trimmed. -/
theorem trim_eq_self {p : Char → Bool} (hf : ∀ c, s.head? = some c → p c = false)
    (hl : ∀ c, s.getLast? = some c → p c = false) : trim p s = s := by
  have hlead : s.dropWhile p = s := by
    cases s with
    | nil => rfl
    | cons c s => simp [hf c rfl]
  rw [trim, hlead, trimTail_eq_self]
  exact hl

/-- Nothing is trimmed from a text without characters to be trimmed. -/
theorem trim_eq_self_of_forall {p : Char → Bool} (h : ∀ c ∈ s, p c = false) : trim p s = s :=
  trim_eq_self (fun c hc => h c (List.mem_of_head? hc)) fun c hc => h c (List.mem_of_getLast? hc)

theorem trim_trim (p : Char → Bool) (s : List Char) : trim p (trim p s) = trim p s := by
  obtain ⟨lead, tail, hs, hl, ht⟩ := exists_trim p s
  have h := trim_append_append (s := trim p s) hl ht
  rw [← hs] at h
  exact h.symm

/-- A tail no longer than a text is removed alike where something stands in front of the text. -/
theorem dropTail?_append (h : tail.length ≤ s.length) (lead : List Char) :
    dropTail? tail (lead ++ s) = (dropTail? tail s).map (lead ++ ·) := by
  cases ht : dropTail? tail s with
  | some before =>
    obtain rfl := dropTail?_eq_some.mp ht
    exact dropTail?_eq_some.mpr (List.append_assoc _ _ _).symm
  | none =>
    rw [Option.map_none, Option.eq_none_iff_forall_ne_some]
    intro before hb
    have hsuffix : tail <:+ lead ++ s := ⟨before, (dropTail?_eq_some.mp hb).symm⟩
    obtain ⟨before', rfl⟩ := List.suffix_of_suffix_length_le hsuffix (List.suffix_append _ _) h
    rw [dropTail?_eq_some.mpr rfl] at ht
    cases ht

end Chars

variable {lead tail s rest before : String}

/-- A text that is cut is what stands before the mark, the mark, and what stands behind it. -/
theorem toList_of_cut? {mark : Char} {after : String} (h : cut? mark s = some (before, after)) :
    s.toList = before.toList ++ mark :: after.toList := by
  simp only [cut?, Option.map_eq_some_iff, Prod.exists, Prod.mk.injEq] at h
  obtain ⟨b, a, hs, rfl, rfl⟩ := h
  rw [Chars.eq_of_cut? hs, String.toList_ofList, String.toList_ofList]

theorem eq_of_cut? {mark : Char} {after : String} (h : cut? mark s = some (before, after)) :
    s = before ++ .ofList [mark] ++ after := by
  rw [← String.toList_inj, toList_of_cut? h]
  simp

theorem not_mem_of_cut?_eq_some {mark : Char} {after : String}
    (h : cut? mark s = some (before, after)) : mark ∉ before.toList := by
  obtain ⟨⟨b, a⟩, hs, he⟩ := Option.map_eq_some_iff.mp h
  obtain ⟨rfl, -⟩ := Prod.mk.inj he
  rw [String.toList_ofList]
  exact Chars.not_mem_of_cut?_eq_some hs

theorem cut?_append {mark : Char} (h : mark ∉ before.toList) (after : String) :
    cut? mark (before ++ .ofList [mark] ++ after) = some (before, after) := by
  have hc := Chars.cut?_append h after.toList
  simp [cut?, String.toList_append, hc]

theorem toList_of_cutLast? {mark : Char} {after : String}
    (h : cutLast? mark s = some (before, after)) :
    s.toList = before.toList ++ mark :: after.toList := by
  simp only [cutLast?, Chars.cutLast?, Option.map_eq_some_iff, Prod.exists, Prod.mk.injEq] at h
  obtain ⟨_, _, ⟨a, b, hs, rfl, rfl⟩, rfl, rfl⟩ := h
  rw [String.toList_ofList, String.toList_ofList, ← List.reverse_inj, Chars.eq_of_cut? hs]
  simp

theorem dropLead?_eq_some : dropLead? lead s = some rest ↔ s = lead ++ rest := by
  rw [dropLead?, Option.map_eq_some_iff]
  constructor
  · rintro ⟨r, hr, rfl⟩
    apply String.ext
    simpa using Chars.dropLead?_eq_some.mp hr
  · rintro rfl
    exact ⟨rest.toList, Chars.dropLead?_eq_some.mpr String.toList_append, String.ofList_toList⟩

theorem dropTail?_eq_some : dropTail? tail s = some before ↔ s = before ++ tail := by
  rw [dropTail?, Option.map_eq_some_iff]
  constructor
  · rintro ⟨r, hr, rfl⟩
    apply String.ext
    simpa using Chars.dropTail?_eq_some.mp hr
  · rintro rfl
    exact ⟨before.toList, Chars.dropTail?_eq_some.mpr String.toList_append, String.ofList_toList⟩

theorem dropTail?_eq_none : dropTail? tail s = none ↔ ∀ before, s ≠ before ++ tail := by
  rw [Option.eq_none_iff_forall_ne_some]
  exact forall_congr' fun before => not_congr dropTail?_eq_some

theorem startsWith_iff : startsWith lead s = true ↔ ∃ rest, s = lead ++ rest := by
  rw [startsWith, Option.isSome_iff_exists]
  constructor
  · rintro ⟨r, hr⟩
    exact ⟨.ofList r, String.ext (by simpa using Chars.dropLead?_eq_some.mp hr)⟩
  · rintro ⟨r, rfl⟩
    exact ⟨r.toList, Chars.dropLead?_eq_some.mpr String.toList_append⟩

theorem startsWith_append (h : startsWith lead s = true) (rest : String) :
    startsWith lead (s ++ rest) = true := by
  obtain ⟨more, rfl⟩ := startsWith_iff.mp h
  exact startsWith_iff.mpr ⟨more ++ rest, String.append_assoc⟩

theorem endsWith_iff : endsWith tail s = true ↔ ∃ before, s = before ++ tail := by
  rw [endsWith, Option.isSome_iff_exists]
  constructor
  · rintro ⟨r, hr⟩
    exact ⟨.ofList r, String.ext (by simpa using Chars.dropTail?_eq_some.mp hr)⟩
  · rintro ⟨r, rfl⟩
    exact ⟨r.toList, Chars.dropTail?_eq_some.mpr String.toList_append⟩

theorem trimTail_eq_self {p : Char → Bool} (h : ∀ c, s.toList.getLast? = some c → p c = false) :
    trimTail p s = s := by
  rw [trimTail, (Chars.trimTail_eq_self p).mpr h, String.ofList_toList]

@[simp] theorem trimTail_trimTail (p : Char → Bool) (s : String) :
    trimTail p (trimTail p s) = trimTail p s := by
  apply trimTail_eq_self
  intro c hc
  rw [trimTail, String.toList_ofList] at hc
  exact Chars.getLast?_trimTail p hc

@[simp] theorem trimTail_empty (p : Char → Bool) : trimTail p "" = "" :=
  trimTail_eq_self fun c hc => by simp at hc

/-- What would be trimmed off anyway makes no difference in front of a text. -/
theorem trimLead_append {p : Char → Bool} (h : ∀ c ∈ lead.toList, p c = true) :
    trimLead p (lead ++ s) = trimLead p s := by
  rw [trimLead, String.toList_append, List.dropWhile_append_of_pos h, trimLead]

/-- What would be trimmed off anyway makes no difference around a text. -/
theorem trim_append_append {p : Char → Bool} (hl : ∀ c ∈ lead.toList, p c = true)
    (ht : ∀ c ∈ tail.toList, p c = true) : trim p (lead ++ s ++ tail) = trim p s := by
  rw [trim, String.toList_append, String.toList_append, Chars.trim_append_append hl ht, trim]

@[simp] theorem trim_trim (p : Char → Bool) (s : String) : trim p (trim p s) = trim p s := by
  rw [trim, trim, String.toList_ofList, Chars.trim_trim]

/-- What is trimmed off satisfies the predicate. -/
theorem exists_trimTail (p : Char → Bool) (s : String) :
    ∃ tail, s = trimTail p s ++ tail ∧ ∀ c ∈ tail.toList, p c = true := by
  refine ⟨.ofList (s.toList.reverse.takeWhile p).reverse, ?_, ?_⟩
  · apply String.ext
    simp only [trimTail, Chars.trimTail, String.toList_append, String.toList_ofList,
      ← List.reverse_append, List.takeWhile_append_dropWhile, List.reverse_reverse]
  · intro c hc
    rw [String.toList_ofList, List.mem_reverse] at hc
    exact List.all_eq_true.mp List.all_takeWhile c hc

/-- Nothing is trimmed from a text that ends in another one nothing is trimmed from. -/
theorem trimTail_append (p : Char → Bool) (h : tail ≠ "")
    (ht : trimTail p tail = tail) (before : String) :
    trimTail p (before ++ tail) = before ++ tail := by
  have hc : Chars.trimTail p tail.toList = tail.toList := by
    simpa [trimTail] using congrArg String.toList ht
  apply String.ext
  rw [trimTail, String.toList_ofList, Chars.trimTail_eq_self]
  intro c he
  have hn : tail.toList ≠ [] := fun e => h (String.toList_eq_nil_iff.mp e)
  rw [String.toList_append, List.getLast?_append, List.getLast?_eq_some_getLast hn] at he
  apply (Chars.trimTail_eq_self p).mp hc
  rwa [List.getLast?_eq_some_getLast hn]

theorem dropTail?_append (h : tail.toList.length ≤ s.toList.length) (lead : String) :
    dropTail? tail (lead ++ s) = (dropTail? tail s).map (lead ++ ·) := by
  rw [dropTail?, String.toList_append, Chars.dropTail?_append h, dropTail?, Option.map_map,
    Option.map_map]
  exact congrArg (Option.map · _) (funext fun before => String.ext (by simp))

theorem endsWith_append (h : tail.toList.length ≤ s.toList.length) (lead : String) :
    endsWith tail (lead ++ s) = endsWith tail s := by
  rw [endsWith, String.toList_append, Chars.dropTail?_append h, Option.isSome_map, endsWith]

theorem sameLetters_iff {t : String} : sameLetters s t = true ↔ lower s = lower t := by
  rw [sameLetters, beq_iff_eq]

/-- Whether a text is a word in any letter case. -/
theorem sameLetters_word {text : List Char} {word : String} (h : lower word = word) :
    sameLetters (.ofList text) word = true ↔ text.map Char.toLower = word.toList := by
  rw [sameLetters_iff, h, ← String.toList_inj, lower, String.toList_ofList, String.toList_ofList]

end RequestRouting.Text
