import RequestRouting.Proofs.Text.Cut

/-!
# Texts and their pieces

A text is split at every mark, so its pieces hold none, and putting them together again with marks
between them gives the text. A character that is no mark belongs to the piece that follows it.
-/

namespace RequestRouting.Text

namespace Chars

variable {mark c : Char} {s a piece lead : List Char}

/-- A text is all one piece, or what is shown for the text behind its first mark is to be shown for
the text, too. -/
@[elab_as_elim]
theorem pieceInduction (mark : Char) {motive : List Char → Prop}
    (last : ∀ piece, mark ∉ piece → motive piece)
    (marked : ∀ piece rest, mark ∉ piece → motive rest → motive (piece ++ mark :: rest))
    (s : List Char) : motive s := by
  -- The induction goes through the characters, with those of the first piece put in front.
  suffices h : ∀ lead, mark ∉ lead → motive (lead ++ s) from h [] List.not_mem_nil
  induction s with
  | nil =>
    intro lead hlead
    rw [List.append_nil]
    exact last lead hlead
  | cons c s ih =>
    intro lead hlead
    by_cases hc : c = mark
    · rw [hc]
      exact marked lead s hlead (ih [] List.not_mem_nil)
    · have hmore := ih (lead ++ [c]) (by simp [hlead, Ne.symm hc])
      rwa [List.append_assoc, List.singleton_append] at hmore

theorem pieces_eq_singleton (h : mark ∉ a) : pieces mark a = [a] := by
  induction a with
  | nil => rfl
  | cons c a ih =>
    rw [List.mem_cons, not_or] at h
    rw [pieces, if_neg (Ne.symm h.1), ih h.2]

/-- The first piece is what stands in front of the first mark. -/
theorem pieces_split (h : mark ∉ piece) (rest : List Char) :
    pieces mark (piece ++ mark :: rest) = piece :: pieces mark rest := by
  induction piece with
  | nil => rw [List.nil_append, pieces, if_pos rfl]
  | cons c piece ih =>
    rw [List.mem_cons, not_or] at h
    rw [List.cons_append, pieces, if_neg (Ne.symm h.1), ih h.2]

theorem pieces_ne_nil (mark : Char) (s : List Char) : pieces mark s ≠ [] := by
  induction s using pieceInduction mark with
  | last piece h => simp [pieces_eq_singleton h]
  | marked piece rest h _ => simp [pieces_split h]

/-- A mark between two texts separates their pieces. -/
theorem pieces_append (mark : Char) (a b : List Char) :
    pieces mark (a ++ mark :: b) = pieces mark a ++ pieces mark b := by
  induction a using pieceInduction mark with
  | last piece h => rw [pieces_split h, pieces_eq_singleton h, List.singleton_append]
  | marked piece rest h ih =>
    rw [List.append_assoc, List.cons_append, pieces_split h, pieces_split h, ih, List.cons_append]

/-- What stands in front of the first piece belongs to it. -/
theorem exists_pieces_append (h : mark ∉ lead) (s : List Char) :
    ∃ first, pieces mark (lead ++ s) = (lead ++ first) :: (pieces mark s).drop 1 := by
  induction s using pieceInduction mark with
  | last piece hp =>
    rw [pieces_eq_singleton hp, pieces_eq_singleton (List.not_mem_append h hp)]
    exact ⟨piece, rfl⟩
  | marked piece rest hp _ =>
    rw [pieces_split hp, ← List.append_assoc, pieces_split (List.not_mem_append h hp)]
    exact ⟨piece, rfl⟩

/-- What stands in front of the first piece makes no difference to the others. -/
theorem drop_pieces_append (h : mark ∉ lead) (s : List Char) :
    (pieces mark (lead ++ s)).drop 1 = (pieces mark s).drop 1 := by
  obtain ⟨first, hs⟩ := exists_pieces_append h s
  rw [hs, List.drop_one, List.tail_cons]

theorem not_mem_of_mem_pieces (h : piece ∈ pieces mark s) : mark ∉ piece := by
  induction s using pieceInduction mark with
  | last first hf =>
    rw [pieces_eq_singleton hf, List.mem_singleton] at h
    rwa [h]
  | marked first rest hf ih =>
    rw [pieces_split hf, List.mem_cons] at h
    rcases h with rfl | h
    · exact hf
    · exact ih h

/-- What isn't a mark is in one of the pieces. -/
theorem exists_mem_pieces (hc : c ∈ s) (hm : c ≠ mark) : ∃ piece ∈ pieces mark s, c ∈ piece := by
  induction s using pieceInduction mark with
  | last piece h => exact ⟨piece, by simp [pieces_eq_singleton h], hc⟩
  | marked piece rest h ih =>
    rw [pieces_split h]
    simp only [List.mem_append, List.mem_cons, hm, false_or] at hc
    rcases hc with hc | hc
    · exact ⟨piece, List.mem_cons_self, hc⟩
    · obtain ⟨other, ho, hmem⟩ := ih hc
      exact ⟨other, List.mem_cons_of_mem _ ho, hmem⟩

/-- Texts without a mark that are put together with marks between them are the pieces. -/
theorem pieces_intercalate {texts : List (List Char)} (hn : texts ≠ [])
    (h : ∀ text ∈ texts, mark ∉ text) : pieces mark ([mark].intercalate texts) = texts := by
  induction texts with
  | nil => exact absurd rfl hn
  | cons text texts ih =>
    have htext := h text List.mem_cons_self
    cases texts with
    | nil => simpa using pieces_eq_singleton htext
    | cons second texts =>
      have hrest := ih (by simp) fun t ht => h t (List.mem_cons_of_mem _ ht)
      rw [List.intercalate_cons_cons, List.append_assoc, List.singleton_append, pieces_split htext,
        hrest]

end Chars

variable {mark : Char} {s piece lead : String}

/-- No piece holds a mark. -/
theorem not_mem_of_mem_pieces (h : piece ∈ pieces mark s) : mark ∉ piece.toList := by
  obtain ⟨p, hp, rfl⟩ := List.mem_map.mp h
  rw [String.toList_ofList]
  exact Chars.not_mem_of_mem_pieces hp

theorem pieces_ne_nil (mark : Char) (s : String) : pieces mark s ≠ [] := by
  simp [pieces, Chars.pieces_ne_nil]

theorem pieces_eq_singleton (h : mark ∉ s.toList) : pieces mark s = [s] := by
  rw [pieces, Chars.pieces_eq_singleton h, List.map_singleton, String.ofList_toList]

theorem drop_pieces_append {mark : Char} (h : mark ∉ lead.toList) (s : String) :
    (pieces mark (lead ++ s)).drop 1 = (pieces mark s).drop 1 := by
  rw [pieces, String.toList_append, ← List.map_drop, Chars.drop_pieces_append h, List.map_drop,
    pieces]

theorem pieces_slash (a b : String) : pieces '/' (a ++ "/" ++ b) = pieces '/' a ++ pieces '/' b := by
  have ht : (a ++ "/" ++ b).toList = a.toList ++ '/' :: b.toList := by simp
  rw [pieces, ht, Chars.pieces_append, List.map_append]
  rfl

/-- A text has no slash, or what is shown for the text behind its first slash is to be shown for the
text, too. -/
@[elab_as_elim]
theorem slashInduction {motive : String → Prop}
    (last : ∀ piece : String, '/' ∉ piece.toList → motive piece)
    (slash : ∀ piece rest : String, '/' ∉ piece.toList → motive rest →
      motive (piece ++ "/" ++ rest)) (s : String) : motive s := by
  suffices h : ∀ l : List Char, motive (.ofList l) by
    rw [← String.ofList_toList (s := s)]
    exact h s.toList
  intro l
  induction l using Chars.pieceInduction '/' with
  | last piece h => exact last _ (by rwa [String.toList_ofList])
  | marked piece rest h ih =>
    have hsplit : String.ofList (piece ++ '/' :: rest) = .ofList piece ++ "/" ++ .ofList rest :=
      String.ext (by simp)
    rw [hsplit]
    exact slash _ _ (by rwa [String.toList_ofList]) ih

/-- Pieces that are put together again are these pieces. -/
theorem pieces_join {parts : List String} (hn : parts ≠ []) (h : ∀ part ∈ parts, '/' ∉ part.toList) :
    pieces '/' (join "/" parts) = parts := by
  have hlist := Chars.pieces_intercalate (mt List.map_eq_nil_iff.mp hn) (List.forall_mem_map.mpr h)
  have htext : (join "/" parts).toList = ['/'].intercalate (parts.map String.toList) :=
    String.toList_intercalate
  rw [pieces, htext, hlist, List.map_map]
  simp [Function.comp_def]

end RequestRouting.Text
