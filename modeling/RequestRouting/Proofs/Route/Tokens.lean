import RequestRouting.Proofs.Route.Pattern
import RequestRouting.Proofs.Text.Cut

/-!
# Reading patterns

A pattern that is made of two others has the tokens of both. A catch-all stands at the end only, and
no slash follows another one in what fills a pattern without doubled slashes.
-/

namespace RequestRouting.Pattern

variable {s name rest : List Char} {ts us : List Token}

theorem readName_append (h : readName s = some (name, rest)) (more : List Char) :
    readName (s ++ more) = some (name, rest ++ more) := by
  induction s generalizing name rest with
  | nil => simp [readName] at h
  | cons c s ih =>
    simp only [readName] at h
    simp only [List.cons_append, readName]
    split at h
    · obtain ⟨rfl, rfl⟩ : [] = name ∧ s = rest := by simpa using h
      simp [*]
    · split at h
      · cases h
      · simp only [Option.map_eq_some_iff, Prod.exists, Prod.mk.injEq] at h
        obtain ⟨n, r, hn, rfl, rfl⟩ := h
        simp [*, ih hn]

theorem readFullName_append (h : readFullName s = some (name, rest)) (more : List Char) :
    readFullName (s ++ more) = some (name, rest ++ more) := by
  cases s with
  | nil => simp [readFullName] at h
  | cons c s =>
    simp only [readFullName] at h
    simp only [List.cons_append, readFullName]
    split at h
    · cases h
    · split at h
      · rename_i hn
        rw [readName_append hn]
        split at h
        · cases h
        · obtain ⟨rfl, rfl⟩ := Prod.mk.inj (Option.some.inj h)
          simp [*]
      · cases h

/-- A name stands before the first closing brace. -/
theorem cut?_of_readName (h : readName s = some (name, rest)) :
    Text.Chars.cut? '\x7d' s = some (name, rest) := by
  induction s generalizing name rest with
  | nil => simp [readName] at h
  | cons c s ih =>
    simp only [readName] at h
    rw [Text.Chars.cut?]
    split at h
    · obtain ⟨rfl, rfl⟩ : [] = name ∧ s = rest := by simpa using h
      rw [if_pos ‹_›]
    · rw [if_neg ‹_›]
      split at h
      · cases h
      · simp only [Option.map_eq_some_iff, Prod.exists, Prod.mk.injEq] at h
        obtain ⟨n, r, hn, rfl, rfl⟩ := h
        rw [ih hn]
        rfl

theorem cut?_of_readFullName (h : readFullName s = some (name, rest)) :
    Text.Chars.cut? '\x7d' s = some (name, rest) := by
  cases s with
  | nil => simp [readFullName] at h
  | cons c s =>
    simp only [readFullName] at h
    rw [Text.Chars.cut?]
    split at h
    · cases h
    · rw [if_neg ‹_›]
      split at h
      · rename_i hn
        rw [cut?_of_readName hn]
        split at h
        · cases h
        · obtain ⟨rfl, rfl⟩ := Prod.mk.inj (Option.some.inj h)
          rfl
      · cases h

/-- The name and the rest, which the closing brace stands between. -/
theorem eq_of_readFullName (h : readFullName s = some (name, rest)) :
    s = name ++ '\x7d' :: rest := Text.Chars.eq_of_cut? (cut?_of_readFullName h)

/-- The tokens of a pattern: characters other than braces, and names between braces. -/
inductive Reads : List Char → List Token → Prop where
  | nil : Reads [] []
  | name {s name rest : List Char} {ts : List Token} (hr : readFullName s = some (name, rest))
      (h : Reads rest ts) : Reads ('\x7b' :: s) (.name name :: ts)
  | char {c : Char} {s : List Char} {ts : List Token} (ho : c ≠ '\x7b') (hc : c ≠ '\x7d')
      (h : Reads s ts) : Reads (c :: s) (.char c :: ts)

theorem reads_of_tokens (h : tokens s = some ts) : Reads s ts := by
  induction hn : s.length using Nat.strongRecOn generalizing s ts with
  | ind n ih =>
    cases s with
    | nil =>
      obtain rfl : [] = ts := by simpa [tokens] using h
      exact .nil
    | cons c s =>
      rw [tokens] at h
      split at h
      · rename_i hc
        subst hc
        split at h
        · rename_i name rest hr
          obtain ⟨us, hu, rfl⟩ := Option.map_eq_some_iff.mp h
          have hl := length_of_readFullName hr
          exact .name hr (ih rest.length (by simp at hn; omega) hu rfl)
        · cases h
      · rename_i ho
        split at h
        · cases h
        · rename_i hc
          obtain ⟨us, hu, rfl⟩ := Option.map_eq_some_iff.mp h
          exact .char ho hc (ih s.length (by simp at hn; omega) hu rfl)

theorem Reads.tokens (h : Reads s ts) : tokens s = some ts := by
  induction h with
  | nil => rw [Pattern.tokens]
  | name hr _ ih =>
    rw [Pattern.tokens, if_pos rfl, hr]
    simp only [ih, Option.map_some]
  | char ho hc _ ih => rw [Pattern.tokens, if_neg ho, if_neg hc, ih, Option.map_some]

theorem Reads.append (h : Reads s ts) {more : List Char} (h' : Reads more us) :
    Reads (s ++ more) (ts ++ us) := by
  induction h with
  | nil => exact h'
  | name hr _ ih => exact .name (readFullName_append hr more) ih
  | char ho hc _ ih => exact .char ho hc ih

/-- A text without stars has no catch-alls. -/
theorem Reads.not_isCatchAll (h : Reads s ts) (hs : '*' ∉ s) :
    ∀ t ∈ ts, t.isCatchAll = false := by
  induction h with
  | nil => simp
  | name hr _ ih =>
    obtain rfl := eq_of_readFullName hr
    simp only [List.mem_cons, List.mem_append, not_or] at hs
    intro t ht
    rcases List.mem_cons.mp ht with rfl | ht
    · exact not_isCatchAll_iff.mpr fun n he => hs.2.1 (he ▸ List.mem_cons_self)
    · exact ih hs.2.2.2 t ht
  | char _ _ _ ih =>
    rw [List.mem_cons, not_or] at hs
    intro t ht
    rcases List.mem_cons.mp ht with rfl | ht
    · rfl
    · exact ih hs.2 t ht

/-- A text without variables is read character by character. -/
theorem Reads.characters (h : Reads s ts) (hk : ts.filterMap Token.key? = []) :
    ts.all Token.isChar = true ∧ Pattern.characters ts = s := by
  induction h with
  | nil => exact ⟨rfl, rfl⟩
  | @name s name rest ts hr _ _ =>
    rw [List.filterMap_cons] at hk
    cases hc : (Token.name name).isCatchAll with
    | false => simp [Token.key?_name hc] at hk
    | true =>
      unfold Token.isCatchAll at hc
      split at hc
      · rename_i he
        rw [he] at hk
        cases hk
      · cases hc
  | char _ _ _ ih =>
    obtain ⟨hall, hs⟩ := ih hk
    exact ⟨hall, congrArg _ hs⟩

theorem isCatchAll_of_isChar {t : Token} (h : t.isChar = true) : t.isCatchAll = false := by
  cases t with
  | char c => rfl
  | name n => cases h

/-- Tokens that are characters up to the end of a segment are followed by what follows that end. -/
theorem isCatchAll_of_mem_segments (hall : (ts.takeWhile (· ≠ .char '/')).all Token.isChar = true)
    (hrest : ∀ t ∈ (ts.dropWhile (· ≠ .char '/')).dropLast, t.isCatchAll = false) :
    ∀ t ∈ ts.dropLast, t.isCatchAll = false := by
  intro t ht
  have hm := List.dropLast_subset _ ht
  rw [← List.takeWhile_append_dropWhile (p := (· ≠ Token.char '/')) (l := ts)] at ht
  by_cases he : ts.dropWhile (· ≠ .char '/') = []
  · rw [← List.takeWhile_append_dropWhile (p := (· ≠ Token.char '/')) (l := ts), he,
      List.append_nil] at hm
    exact isCatchAll_of_isChar (List.all_eq_true.mp hall t hm)
  · rw [List.dropLast_append_of_ne_nil he] at ht
    rcases List.mem_append.mp ht with ht | ht
    · exact isCatchAll_of_isChar (List.all_eq_true.mp hall t ht)
    · exact hrest t ht

/-- Nothing follows a catch-all in a pattern that is read. -/
theorem isCatchAll_of_mem_dropLast (h : check (pieces ts) = .ok ()) :
    ∀ t ∈ ts.dropLast, t.isCatchAll = false := by
  induction ts using pieces.induct with
  | case1 => simp
  | case2 c rest ih =>
    rw [pieces] at h
    intro t ht
    cases rest with
    | nil => simp at ht
    | cons r rest =>
      rcases List.mem_cons.mp ht with rfl | ht
      · rfl
      · exact ih h t ht
  | case3 name rest =>
    rw [pieces] at h
    simp only [check] at h
    split at h
    · rename_i he
      obtain rfl : rest = [] := by simpa using he
      simp
    · cases h
  | case4 name rest hn ih =>
    rw [pieces.eq_4 _ _ hn] at h
    simp only [check] at h
    split at h
    · rename_i hall
      intro t ht
      cases hr : rest with
      | nil => simp [hr] at ht
      | cons r more =>
        rw [hr, List.dropLast_cons_cons, List.mem_cons, ← hr] at ht
        rcases ht with rfl | ht
        · exact not_isCatchAll_iff.mpr fun n e => hn n e
        · exact isCatchAll_of_mem_segments hall (ih h) t ht
    · cases h

end RequestRouting.Pattern
