import Mathlib.Data.List.Chain
import Mathlib.Data.List.DropRight
import Mathlib.Data.List.Infix
import RequestRouting.Assets.Minify
import RequestRouting.Proofs.Text.Lines

/-!
# Tidying lines

A text is tidied by leaving out the blanks at the end of its lines, and the lines that nothing is
left of. Read from its start, a character is left out if it's blank and only blanks follow it up to
the next line feed, and a line feed is written behind the last character of a line that isn't. This
is said of any kind of characters first, so that some of a text may be told apart from the others.

No blank is in front of a line feed in a tidied text, and parts of a text that have none there, and
don't end in a blank, are kept as they are.
-/

namespace RequestRouting.Minify

section

variable {α : Type} (feed blank : α → Bool) (char : α → Char)

/-- The lines of a text without the blanks at their ends, each with a line feed behind it, but for
those that nothing is left of. -/
def neat (s : List α) : List Char :=
  ((s.splitOnP feed).map (List.rdropWhile blank)).flatMap fun line =>
    if line.isEmpty then [] else line.map char ++ ['\n']

/-- Whether the first line of a text is blank. -/
def startsBlank : List α → Bool
  | [] => true
  | x :: s => feed x || (blank x && startsBlank s)

variable {feed blank char} {x : α} {s : List α}

theorem rdropWhile_cons (p : α → Bool) (x : α) (s : List α) : (x :: s).rdropWhile p =
    if s.all p then if p x then [] else [x] else x :: s.rdropWhile p := by
  simp only [List.rdropWhile, List.reverse_cons, List.dropWhile_append]
  by_cases h : s.all p = true
  · have hnil : s.reverse.dropWhile p = [] := by
      simpa using h
    cases hx : p x <;> simp [hnil, h, hx]
  · have hne : s.reverse.dropWhile p ≠ [] := by
      simpa using h
    simp [hne, h]

/-- The first line of a text is the first of the parts between its line feeds. -/
theorem exists_splitOnP (feed blank : α → Bool) (s : List α) : ∃ line more,
    s.splitOnP feed = line :: more ∧ startsBlank feed blank s = line.all blank := by
  induction s with
  | nil => exact ⟨[], [], by simp [startsBlank]⟩
  | cons x s ih =>
    obtain ⟨line, more, hs, hblank⟩ := ih
    by_cases hf : feed x = true
    · exact ⟨[], line :: more, by simp [List.splitOnP_cons_eq_if_modifyHead, hf, hs, startsBlank]⟩
    · exact ⟨x :: line, more, by
        simp [List.splitOnP_cons_eq_if_modifyHead, hf, hs, startsBlank, hblank]⟩

@[simp] theorem neat_nil : neat feed blank char [] = [] := rfl

theorem neat_feed (h : feed x = true) : neat feed blank char (x :: s) = neat feed blank char s := by
  simp [neat, List.splitOnP_cons_eq_if_modifyHead, h]

/-- A line ends behind the last character that isn't blank. -/
theorem neat_cons (h : feed x = false) : neat feed blank char (x :: s) =
    if startsBlank feed blank s then
      if blank x then neat feed blank char s else char x :: '\n' :: neat feed blank char s
    else char x :: neat feed blank char s := by
  obtain ⟨line, more, hs, hblank⟩ := exists_splitOnP feed blank s
  have hx : (x :: s).splitOnP feed = (x :: line) :: more := by
    simp [List.splitOnP_cons_eq_if_modifyHead, h, hs]
  simp only [neat, hx, hs, hblank, List.map_cons, List.flatMap_cons, rdropWhile_cons]
  by_cases hline : line.all blank = true
  · have hnil : line.rdropWhile blank = [] := by simpa using hline
    cases blank x <;> simp [hline, hnil]
  · have hne : line.rdropWhile blank ≠ [] := by simpa using hline
    simp [hline, hne]

theorem neat_suffix (w s : List α) : neat feed blank char s <:+ neat feed blank char (w ++ s) := by
  induction w with
  | nil => exact List.suffix_refl _
  | cons x w ih =>
    refine ih.trans ?_
    by_cases hf : feed x = true
    · simp [neat_feed hf]
    · rw [List.cons_append, neat_cons (by simpa using hf)]
      split
      · split
        · exact List.suffix_refl _
        · exact ⟨[char x, '\n'], rfl⟩
      · exact List.suffix_cons _ _

/-- Characters that are neither blanks nor line feeds are kept. -/
theorem neat_append {w : List α} (hw : w ≠ []) (h : ∀ x ∈ w, feed x = false ∧ blank x = false) :
    neat feed blank char (w ++ s) =
      w.map char ++ (if startsBlank feed blank s then ['\n'] else []) ++ neat feed blank char s := by
  induction w with
  | nil => exact absurd rfl hw
  | cons x w ih =>
    obtain ⟨hf, hb⟩ := h x List.mem_cons_self
    cases w with
    | nil =>
      by_cases hs : startsBlank feed blank s = true <;> simp [neat_cons hf, hb, hs]
    | cons y w =>
      have ih := ih (by simp) fun x hx => h x (List.mem_cons_of_mem _ hx)
      obtain ⟨hfy, hby⟩ := h y (by simp)
      simpa [neat_cons hf, startsBlank, hfy, hby] using ih

end

open Text (isBlank)

/-- Text in which a blank is never directly in front of a line feed. -/
def IsTight : List Char → Prop := List.IsChain fun x y => y = '\n' → isBlank x = false

theorem IsTight.of_isInfix {w s : List Char} (h : IsTight s) (hw : w <:+: s) : IsTight w := by
  obtain ⟨front, rest, rfl⟩ := hw
  exact (List.isChain_append.mp (List.isChain_append.mp h).1).2.1

instance (s : List Char) : Decidable (IsTight s) := inferInstanceAs (Decidable (List.IsChain _ s))

variable {c : Char} {s w : List Char}

/-! Carriage returns in front of line feeds and a last line without one don't matter. -/

theorem splitOnP_eq_pieces (mark : Char) (s : List Char) :
    s.splitOnP (· = mark) = Text.Chars.pieces mark s := by
  induction s with
  | nil => rfl
  | cons c s ih =>
    by_cases hc : c = mark
    · simp [List.splitOnP_cons_eq_if_modifyHead, Text.Chars.pieces, hc, ih]
    · have hne := Text.Chars.pieces_ne_nil mark s
      cases hp : Text.Chars.pieces mark s with
      | nil => exact absurd hp hne
      | cons piece more =>
        simp [List.splitOnP_cons_eq_if_modifyHead, Text.Chars.pieces, hc, ih, hp]

theorem trimTail_stripReturn (line : List Char) :
    Text.Chars.trimTail isBlank (Text.Chars.stripReturn line) =
      Text.Chars.trimTail isBlank line := by
  rw [Text.Chars.stripReturn]
  cases h : Text.Chars.dropTail? ['\r'] line with
  | none => rfl
  | some before =>
    rw [Text.Chars.dropTail?_eq_some] at h
    subst h
    exact (Text.Chars.trimTail_append_of_pos (by simp [isBlank])).symm

theorem tidy_eq_neat (s : List Char) : tidy s = neat (· = '\n') isBlank id s := by
  obtain ⟨ended, last, hs⟩ : ∃ ended last, Text.Chars.pieces '\n' s = ended ++ [last] :=
    ⟨_, _, (List.dropLast_append_getLast (Text.Chars.pieces_ne_nil '\n' s)).symm⟩
  have hlines : Text.Chars.lines s =
      ended.map Text.Chars.stripReturn ++ if last.isEmpty then [] else [last] := by
    simp only [Text.Chars.lines, hs, List.dropLast_concat, List.getLast?_concat, Option.getD_some]
    rfl
  have htrim : ∀ line : List Char, line.rdropWhile isBlank = Text.Chars.trimTail isBlank line :=
    fun line => rfl
  have hnil : Text.Chars.trimTail isBlank [] = [] := rfl
  rw [tidy, neat, hlines, splitOnP_eq_pieces, hs]
  cases last with
  | nil => simp [List.flatMap_map, trimTail_stripReturn, htrim, hnil]
  | cons c last => simp [List.flatMap_map, trimTail_stripReturn, htrim]

theorem tidy_feed (s : List Char) : tidy ('\n' :: s) = tidy s := by
  rw [tidy_eq_neat, tidy_eq_neat, neat_feed (by rfl)]

theorem tidy_cons (h : c ≠ '\n') : tidy (c :: s) =
    if startsBlank (· = '\n') isBlank s then
      if isBlank c then tidy s else c :: '\n' :: tidy s
    else c :: tidy s := by
  rw [tidy_eq_neat, tidy_eq_neat, neat_cons (by simpa using h)]
  rfl

theorem head?_tidy (s : List Char) : (tidy s).head? ≠ some '\n' := by
  induction s with
  | nil => decide
  | cons c s ih =>
    by_cases hc : c = '\n'
    · rwa [hc, tidy_feed]
    · rw [tidy_cons hc]
      split
      · split
        · exact ih
        · simpa using hc
      · simpa using hc

/-- Tidying leaves no blank in front of a line feed. -/
theorem isTight_tidy (s : List Char) : IsTight (tidy s) := by
  induction s with
  | nil => exact .nil
  | cons c s ih =>
    have hfeed : IsTight ('\n' :: tidy s) :=
      List.isChain_cons.mpr ⟨fun y hy hn => absurd (hn ▸ hy) (head?_tidy s), ih⟩
    by_cases hc : c = '\n'
    · rwa [hc, tidy_feed]
    · rw [tidy_cons hc]
      split
      · split
        · exact ih
        · rename_i hb
          exact List.isChain_cons.mpr ⟨fun _ _ _ => by simpa using hb, hfeed⟩
      · exact List.isChain_cons.mpr ⟨fun y hy hn => absurd (hn ▸ hy) (head?_tidy s), ih⟩

/-! A tight text that doesn't end in a blank is left as it is. -/

/-- A tight text has no blank lines. -/
theorem startsBlank_append (h : IsTight w) (hhead : w.head? ≠ some '\n')
    (hlast : ∃ c, w.getLast? = some c ∧ isBlank c = false) :
    startsBlank (· = '\n') isBlank (w ++ s) = false := by
  induction w with
  | nil => simp at hlast
  | cons c w ih =>
    have hc : c ≠ '\n' := by simpa using hhead
    cases w with
    | nil =>
      have hb : isBlank c = false := by simpa using hlast
      simp [startsBlank, hc, hb]
    | cons d w =>
      obtain ⟨hcd, hw⟩ := List.isChain_cons_cons.mp h
      by_cases hb : isBlank c = true
      · have hd : (d :: w).head? ≠ some '\n' := by
          rintro hd
          simp [hcd (by simpa using hd)] at hb
        simpa [startsBlank, hc, hb] using ih hw hd (by simpa using hlast)
      · simp [startsBlank, hc, hb]

/-- A tight text that doesn't end in a blank is kept, with a line feed behind it where its line
ends. A line feed that it starts with is the one behind the last line. -/
theorem tidy_append (h : IsTight w) (hlast : ∃ c, w.getLast? = some c ∧ isBlank c = false) :
    (if w.head? = some '\n' then ['\n'] else []) ++ tidy (w ++ s) =
      w ++ (if startsBlank (· = '\n') isBlank s then ['\n'] else []) ++ tidy s := by
  induction w with
  | nil => simp at hlast
  | cons c w ih =>
    have hfeed : isBlank '\n' = true := by decide
    cases w with
    | nil =>
      have hb : isBlank c = false := by simpa using hlast
      have hc : c ≠ '\n' := by
        rintro rfl
        simp [hfeed] at hb
      -- The last character is the one whose line may end behind it.
      by_cases hs : startsBlank (· = '\n') isBlank s = true <;> simp [tidy_cons hc, hc, hb, hs]
    | cons d w =>
      obtain ⟨hcd, hw⟩ := List.isChain_cons_cons.mp h
      have ih := ih hw (by simpa using hlast)
      by_cases hc : c = '\n'
      · have hd : d ≠ '\n' := by
          rintro rfl
          simp [hc, hfeed] at hcd
        simpa [hc, hd, tidy_feed] using ih
      · by_cases hd : d = '\n'
        · have hs : startsBlank (· = '\n') isBlank ('\n' :: (w ++ s)) = true := rfl
          simpa [hc, hd, tidy_cons hc, hs, hcd hd] using ih
        · have hs := startsBlank_append (s := s) hw (by simpa using hd) (by simpa using hlast)
          rw [List.cons_append] at hs
          simpa [hc, hd, tidy_cons hc, hs] using ih

end RequestRouting.Minify
