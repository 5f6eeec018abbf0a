import RequestRouting.Proofs.Text.Pieces

/-!
# Lines of texts put together

Texts that are joined by line feeds are read back line by line, if each of them is a line: not
empty, without a line feed, and without a carriage return that would be taken for a part of the line
end. Any other text is read back as something else, or not at all.
-/

namespace RequestRouting.Text

namespace Chars

variable {a b : List Char}

/-- A line without the carriage return in front of its line feed. -/
def stripReturn (line : List Char) : List Char := (dropTail? ['\r'] line).getD line

theorem stripReturn_of_ne (h : a.getLast? ≠ some '\r') : stripReturn a = a := by
  have hn : dropTail? ['\r'] a = none := by
    rw [Option.eq_none_iff_forall_ne_some]
    intro before hb
    rw [dropTail?_eq_some] at hb
    exact h (by simp [hb])
  rw [stripReturn, hn, Option.getD_none]

/-- All pieces in front of a line feed are lines that it ends. -/
theorem lines_append (a b : List Char) :
    lines (a ++ '\n' :: b) = (pieces '\n' a).map stripReturn ++ lines b := by
  have hb : pieces '\n' b ≠ [] := pieces_ne_nil '\n' b
  have hlast : (pieces '\n' a ++ pieces '\n' b).getLast? = (pieces '\n' b).getLast? := by
    rw [List.getLast?_append, List.getLast?_eq_some_getLast hb, Option.some_or]
  simp only [lines, pieces_append, List.dropLast_append_of_ne_nil hb, hlast, List.map_append,
    List.append_assoc]
  rfl

/-- A text without line feeds is its own line, unless it's empty. -/
theorem lines_eq_singleton (h : '\n' ∉ a) (hn : a ≠ []) : lines a = [a] := by
  have he : a.isEmpty = false := by simpa using hn
  simp [lines, pieces_eq_singleton h, he]

/-- What's a line of a text stays one if a line feed and more text follow, unless a carriage return
at its end is taken for a part of the line end. -/
theorem mem_lines_append {line : List Char} (h : line ∈ lines a)
    (hr : line.getLast? ≠ some '\r') : line ∈ lines (a ++ '\n' :: b) := by
  rw [lines_append]
  refine List.mem_append_left _ (List.mem_map.mpr ?_)
  simp only [lines, List.mem_append, List.mem_map] at h
  rcases h with ⟨piece, hp, rfl⟩ | h
  · exact ⟨piece, (List.dropLast_sublist _).subset hp, rfl⟩
  · split at h
    · exact absurd h List.not_mem_nil
    · rw [List.mem_singleton] at h
      have hl : (pieces '\n' a).getLast? = some line := by
        rw [h, List.getLast?_eq_some_getLast (pieces_ne_nil '\n' a), Option.getD_some]
      exact ⟨line, List.mem_of_getLast? hl, stripReturn_of_ne hr⟩

end Chars

/-- Whether a text is a line of its own: it's read back as it is between other lines. -/
structure IsLine (s : String) : Prop where
  ne_empty : s ≠ ""
  feed : '\n' ∉ s.toList
  carriageReturn : s.toList.getLast? ≠ some '\r'

instance (s : String) : Decidable (IsLine s) :=
  decidable_of_iff (s ≠ "" ∧ '\n' ∉ s.toList ∧ s.toList.getLast? ≠ some '\r')
    ⟨fun h => ⟨h.1, h.2.1, h.2.2⟩, fun h => ⟨h.ne_empty, h.feed, h.carriageReturn⟩⟩

variable {s t line : String}

theorem mem_lines {line : String} : line ∈ lines s ↔ line.toList ∈ Chars.lines s.toList := by
  rw [lines, List.mem_map]
  constructor
  · rintro ⟨l, hl, rfl⟩
    rwa [String.toList_ofList]
  · intro h
    exact ⟨_, h, String.ofList_toList⟩

theorem toList_feed (s t : String) : (s ++ "\n" ++ t).toList = s.toList ++ '\n' :: t.toList := by
  simp [String.toList_append]

/-- What's a line of a text stays one if a line feed and more text follow. -/
theorem IsLine.mem_lines_append (hl : IsLine line) (h : line ∈ lines s) :
    line ∈ lines (s ++ "\n" ++ t) := by
  rw [mem_lines, toList_feed]
  exact Chars.mem_lines_append (mem_lines.mp h) hl.carriageReturn

theorem IsLine.lines_eq (hl : IsLine s) : Chars.lines s.toList = [s.toList] :=
  Chars.lines_eq_singleton hl.feed fun he => hl.ne_empty (String.toList_eq_nil_iff.mp he)

/-- A line that's put at the end of a text is read back. -/
theorem IsLine.mem_lines_self (hl : IsLine line) : line ∈ lines (s ++ "\n" ++ line) := by
  rw [mem_lines, toList_feed, Chars.lines_append, hl.lines_eq]
  exact List.mem_append_right _ (List.mem_singleton_self _)

theorem join_cons {separator text : String} {texts : List String} (h : texts ≠ []) :
    join separator (text :: texts) = text ++ separator ++ join separator texts := by
  cases texts with
  | nil => exact absurd rfl h
  | cons second more => exact String.intercalate_cons_cons

theorem join_concat {texts : List String} (h : texts ≠ []) (text : String) :
    join "\n" (texts ++ [text]) = join "\n" texts ++ "\n" ++ text := by
  induction texts with
  | nil => exact absurd rfl h
  | cons first rest ih =>
    by_cases hr : rest = []
    · subst hr
      rw [List.cons_append, List.nil_append, join_cons (by simp), join,
        String.intercalate_singleton, join, String.intercalate_singleton]
    · rw [List.cons_append, join_cons (by simp), ih hr, join_cons hr]
      simp only [String.append_assoc]

theorem join_ne_empty {first : String} (h : first ≠ "") (rest : List String) :
    join "\n" (first :: rest) ≠ "" := by
  by_cases hr : rest = []
  · rw [hr, join, String.intercalate_singleton]
    exact h
  · rw [join_cons hr]
    simp

/-- The lines of several lines put together are these. -/
theorem lines_join {texts : List String} (h : ∀ text ∈ texts, IsLine text) :
    lines (join "\n" texts) = texts := by
  induction texts with
  | nil => rfl
  | cons first rest ih =>
    have hf : IsLine first := h first List.mem_cons_self
    have hr : lines (join "\n" rest) = rest := ih fun text ht => h text (List.mem_cons_of_mem _ ht)
    by_cases hn : rest = []
    · rw [hn, join, String.intercalate_singleton, lines, hf.lines_eq, List.map_singleton,
        String.ofList_toList]
    · have hp : (Chars.pieces '\n' first.toList).map Chars.stripReturn = [first.toList] := by
        rw [Chars.pieces_eq_singleton hf.feed, List.map_singleton,
          Chars.stripReturn_of_ne hf.carriageReturn]
      rw [lines, join_cons hn, toList_feed, Chars.lines_append, hp, List.map_append,
        List.map_singleton, String.ofList_toList]
      exact congrArg (first :: ·) hr

end RequestRouting.Text
