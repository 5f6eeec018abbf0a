import RequestRouting.Http.Template
import RequestRouting.Proofs.Text.Cut

/-!
# What templates expand to

The first variable of a text starts at its first opening brace and ends at the closing brace that
follows it first. Behind that the text is read in the same way, so the values that take the place of
variables are never read. A text is all literal if no closing brace follows an opening one.
-/

namespace RequestRouting.Template

variable {s before name after : List Char}

/-- The parts of a text without variables. -/
def literal : List Char → List Part
  | [] => []
  | c :: s => [.literal (c :: s)]

/-- Whether there is no variable in a text. -/
def IsLiteral (s : List Char) : Prop :=
  ∀ before name after, s ≠ before ++ '\x7b' :: (name ++ '\x7d' :: after)

/-- What a text becomes by replacing its variables, from left to right, by the values of their
names. -/
inductive Replaces (value : String → String) : List Char → List Char → Prop where
  | literal {s : List Char} (h : IsLiteral s) : Replaces value s s
  | named {before name after result : List Char} (hb : '\x7b' ∉ before) (hn : '\x7d' ∉ name)
      (h : Replaces value after result) :
      Replaces value (before ++ '\x7b' :: (name ++ '\x7d' :: after))
        (before ++ ((value (.ofList name)).toList ++ result))

theorem isLiteral_of_not_mem (h : '\x7b' ∉ s) : IsLiteral s := by
  rintro before name after rfl
  simp at h

/-- A text is all literal, or it has a first variable. -/
theorem isLiteral_or (s : List Char) : IsLiteral s ∨ ∃ before name after,
    '\x7b' ∉ before ∧ '\x7d' ∉ name ∧ s = before ++ '\x7b' :: (name ++ '\x7d' :: after) := by
  cases ho : Text.Chars.cut? '\x7b' s with
  | none => exact Or.inl (isLiteral_of_not_mem (Text.Chars.not_mem_of_cut? ho))
  | some p =>
    obtain ⟨before, rest⟩ := p
    have hb := Text.Chars.not_mem_of_cut?_eq_some ho
    obtain rfl := Text.Chars.eq_of_cut? ho
    cases hc : Text.Chars.cut? '\x7d' rest with
    | some q =>
      obtain ⟨name, after⟩ := q
      have hn := Text.Chars.not_mem_of_cut?_eq_some hc
      exact Or.inr ⟨before, name, after, hb, hn, by rw [Text.Chars.eq_of_cut? hc]⟩
    | none =>
      -- A closing brace behind any opening one would stand behind the first one, too.
      have hn := Text.Chars.not_mem_of_cut? hc
      refine Or.inl fun before' name after he => ?_
      rcases List.append_eq_append_iff.mp he with ⟨more, -, hrest⟩ | ⟨more, rfl, hrest⟩
      · have hmem : '\x7d' ∈ '\x7b' :: rest := by simp [hrest]
        exact hn (by simpa using hmem)
      · cases more with
        | nil => exact hn (by simp [(List.cons.inj hrest).2.symm])
        | cons c more =>
          obtain rfl := (List.cons.inj hrest).1
          simp at hb

/-- A text is all literal, or what is shown for the text behind its first variable is to be shown for
the text, too. -/
@[elab_as_elim]
theorem variableInduction {motive : List Char → Prop} (literal : ∀ s, IsLiteral s → motive s)
    (named : ∀ before name after, '\x7b' ∉ before → '\x7d' ∉ name → motive after →
      motive (before ++ '\x7b' :: (name ++ '\x7d' :: after))) (s : List Char) : motive s := by
  induction hl : s.length using Nat.strongRecOn generalizing s with
  | _ n ih =>
    rcases isLiteral_or s with h | ⟨before, name, after, hb, hn, rfl⟩
    · exact literal s h
    · simp only [List.length_append, List.length_cons] at hl
      exact named before name after hb hn (ih after.length (by omega) after rfl)

theorem split_of_isLiteral (h : IsLiteral s) : split s = literal s := by
  induction s with
  | nil => rw [split, literal]
  | cons c s ih =>
    rw [split]
    split
    · rename_i hc
      split
      · rename_i name after hcut
        exact absurd (by rw [hc, Text.Chars.eq_of_cut? hcut, List.nil_append]) (h [] name after)
      · rfl
    · have hs : IsLiteral s := fun before name after he =>
        h (c :: before) name after (by rw [he, List.cons_append])
      rw [ih hs]
      cases s <;> rfl

/-- What stands in front of the first variable is a literal. -/
theorem split_variable (hb : '\x7b' ∉ before) (hn : '\x7d' ∉ name) (after : List Char) :
    split (before ++ '\x7b' :: (name ++ '\x7d' :: after)) =
      literal before ++ .variable name :: split after := by
  induction before with
  | nil =>
    have hcut := Text.Chars.cut?_append hn after
    rw [List.nil_append, split, if_pos rfl]
    split
    · rename_i name' after' hcut'
      obtain ⟨rfl, rfl⟩ := Prod.mk.inj (Option.some.inj (hcut.symm.trans hcut'))
      rfl
    · rename_i hnone
      rw [hcut] at hnone
      cases hnone
  | cons c before ih =>
    rw [List.mem_cons, not_or] at hb
    rw [List.cons_append, split, if_neg (Ne.symm hb.1), ih hb.2]
    cases before <;> rfl

@[simp] theorem flatMap_text_literal (s : List Char) : (literal s).flatMap Part.text = s := by
  cases s with
  | nil => rfl
  | cons c s => rw [literal, List.flatMap_singleton, Part.text]

@[simp] theorem flatMap_expand_literal (req : Request) (s : List Char) :
    (literal s).flatMap (Part.expand req) = s := by
  cases s with
  | nil => rfl
  | cons c s => rw [literal, List.flatMap_singleton, Part.expand]

/-- The parts of a text, put together, are the text. -/
theorem flatMap_text_split (s : List Char) : (split s).flatMap Part.text = s := by
  induction s using variableInduction with
  | literal s h => rw [split_of_isLiteral h, flatMap_text_literal]
  | named before name after hb hn ih =>
    rw [split_variable hb hn, List.flatMap_append, List.flatMap_cons, flatMap_text_literal, ih]
    simp [Part.text]

theorem text_parse (text : String) : (parse text).text = text := by
  rw [parse, Template.text, flatMap_text_split, String.ofList_toList]

/-- Nothing is inserted into a template without variables. -/
theorem expand_eq_text {t : Template} (h : t.hasVariables = false) (req : Request) :
    t.expand req = t.text := by
  have hp (parts : List Part) (hn : (⟨parts⟩ : Template).hasVariables = false) :
      parts.flatMap (Part.expand req) = parts.flatMap Part.text := by
    induction parts with
    | nil => rfl
    | cons part rest ih =>
      simp only [hasVariables, List.any_cons, Bool.or_eq_false_iff] at hn
      rw [List.flatMap_cons, List.flatMap_cons, ih hn.2]
      rcases part with text | name
      · rfl
      · exact absurd hn.1 (by simp)
  rw [expand, text, hp t.parts h]

/-- A text without opening braces is all text as a template, too. -/
theorem parse_of_not_mem {text : String} (h : '\x7b' ∉ text.toList) :
    (parse text).hasVariables = false ∧ (parse text).text = text := by
  refine ⟨?_, text_parse text⟩
  rw [parse, split_of_isLiteral (isLiteral_of_not_mem h)]
  cases text.toList <;> rfl

/-- What the parts of a text expand to is what the text becomes by replacing its variables. -/
theorem replaces_split (req : Request) (s : List Char) :
    Replaces (value req) s ((split s).flatMap (Part.expand req)) := by
  induction s using variableInduction with
  | literal s h =>
    rw [split_of_isLiteral h, flatMap_expand_literal]
    exact .literal h
  | named before name after hb hn ih =>
    rw [split_variable hb hn, List.flatMap_append, List.flatMap_cons, flatMap_expand_literal]
    exact .named hb hn ih

/-- There's only one way to replace variables. -/
theorem Replaces.eq_expand {req : Request} {result : List Char}
    (h : Replaces (value req) s result) : result = (split s).flatMap (Part.expand req) := by
  induction h with
  | literal h => rw [split_of_isLiteral h, flatMap_expand_literal]
  | named hb hn _ ih =>
    rw [split_variable hb hn, List.flatMap_append, List.flatMap_cons, flatMap_expand_literal, ← ih]
    rfl

/-- Reading a template loses nothing: its text is what it was read from. It expands to that text with
every opening brace, from the first one on, replaced up to the closing brace that follows it by the
value of the name between them. Braces that aren't closed are kept, and values aren't looked at. -/
theorem replaces_iff (text : String) : (parse text).text = text ∧
    ∀ (req : Request) (result : String),
      Replaces (value req) text.toList result.toList ↔ (parse text).expand req = result := by
  refine ⟨text_parse text, fun req result => ?_⟩
  rw [parse, expand]
  constructor
  · intro h
    rw [← h.eq_expand, String.ofList_toList]
  · rintro rfl
    rw [String.toList_ofList]
    exact replaces_split req text.toList

end RequestRouting.Template
