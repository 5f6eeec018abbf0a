import RequestRouting.Proofs.Route.Collapse
import RequestRouting.Proofs.Text.Pieces

/-!
# The canonical form of a URI

A URI is made up of segments with slashes between them, and only the ones that aren't empty count.
Cleaning puts a slash in front of each of them, and one behind the last if the URI ends in a slash
or is empty. So nothing but these segments and this ending can be told from a cleaned URI, and
what is put together from parts may be cleaned before and after.
-/

namespace RequestRouting

variable {uri a b piece result : String}

/-- The segments of a URI, without the empty ones. -/
def segments (uri : String) : List String := (Text.pieces '/' uri).filter (· ≠ "")

/-- Whether a URI ends like that of a folder. The empty one does, as it's cleaned to a slash. -/
def IsFolder (uri : String) : Prop := uri = "" ∨ Text.endsWith "/" uri = true

instance (uri : String) : Decidable (IsFolder uri) := inferInstanceAs (Decidable (_ ∨ _))

/-- What makes a text the clean form of a URI. -/
structure IsCanonical (uri result : String) : Prop where
  slash : ∃ rest, result = "/" ++ rest
  single : ∀ before after, result ≠ before ++ "//" ++ after
  segments : segments result = segments uri
  ending : Text.endsWith "/" result = true ↔ IsFolder uri

/-! What a slash in a URI does to its segments and to its ending. -/

theorem segments_slash (a b : String) : segments (a ++ "/" ++ b) = segments a ++ segments b := by
  rw [segments, Text.pieces_slash, List.filter_append, segments, segments]

theorem segments_of_not_mem (h : '/' ∉ piece.toList) :
    segments piece = if piece = "" then [] else [piece] := by
  rw [segments, Text.pieces_eq_singleton h, List.filter_singleton]
  by_cases hn : piece = "" <;> simp [hn]

/-- A slash in front of a URI makes no difference to its segments. -/
theorem segments_lead (uri : String) : segments ("/" ++ uri) = segments uri := segments_slash "" uri

theorem segments_append (h : Text.startsWith "/" b = true) (a : String) :
    segments (a ++ b) = segments a ++ segments b := by
  obtain ⟨rest, rfl⟩ := Text.startsWith_iff.mp h
  rw [← String.append_assoc, segments_slash, segments_lead]

/-- The last character of a URI counts, and a slash if there is none. -/
theorem isFolder_iff : IsFolder uri ↔ uri.toList.getLast?.getD '/' = '/' := by
  rw [IsFolder, endsWith_slash_iff, ← String.toList_eq_nil_iff, ← List.getLast?_eq_none_iff]
  cases uri.toList.getLast? <;> simp

theorem isFolder_slash (a b : String) : IsFolder (a ++ "/" ++ b) ↔ IsFolder b := by
  rw [isFolder_iff, isFolder_iff]
  simp [List.getLast?_cons]

theorem isFolder_lead (uri : String) : IsFolder ("/" ++ uri) ↔ IsFolder uri := isFolder_slash "" uri

theorem not_isFolder_of_not_mem (h : '/' ∉ piece.toList) (hn : piece ≠ "") : ¬IsFolder piece := by
  rintro (he | he)
  · exact hn he
  · exact h (List.mem_of_getLast? (endsWith_slash_iff.mp he))

/-! What cleaning does to a URI. -/

theorem ne_empty_of_startsWith (h : Text.startsWith "/" uri = true) : uri ≠ "" := by
  rintro rfl
  cases h

theorem clean_of_not_mem (h : '/' ∉ piece.toList) : clean piece = "/" ++ piece := by
  have hc := collapse_append_of_not_mem true [] h
  rw [List.nil_append] at hc
  exact String.ext (by rw [toList_clean, hc]; simp [collapse])

/-- The first segment is kept, unless it's empty, and what follows it is cleaned. -/
theorem clean_slash (h : '/' ∉ piece.toList) (rest : String) :
    clean (piece ++ "/" ++ rest) = (if piece = "" then "" else "/" ++ piece) ++ clean rest := by
  have hsplit : (piece ++ "/" ++ rest).toList = piece.toList ++ '/' :: rest.toList := by simp
  refine String.ext ?_
  rw [toList_clean, hsplit, String.toList_append (t := clean rest), toList_clean]
  by_cases hn : piece = ""
  · simp [hn, collapse]
  · obtain ⟨c, s, hs⟩ := List.exists_cons_of_ne_nil (mt String.toList_eq_nil_iff.mp hn)
    rw [if_neg hn, String.toList_append, hs]
    rw [hs] at h
    rw [collapse_lead h]
    rfl

/-- A cleaned URI is its segments with slashes in front of them, and a slash if it ends in one. -/
theorem clean_eq (uri : String) : clean uri =
    String.join ((segments uri).map ("/" ++ ·)) ++ if IsFolder uri then "/" else "" := by
  induction uri using Text.slashInduction with
  | last piece h =>
    rw [clean_of_not_mem h, segments_of_not_mem h]
    by_cases hn : piece = ""
    · simp [hn, IsFolder]
    · simp [hn, not_isFolder_of_not_mem h hn]
  | slash piece rest h ih =>
    -- An empty first segment adds nothing to either side.
    simp only [clean_slash h, segments_slash, isFolder_slash, segments_of_not_mem h, ih]
    split <;> simp [String.append_assoc]

@[simp] theorem segments_clean (uri : String) : segments (clean uri) = segments uri := by
  induction uri using Text.slashInduction with
  | last piece h => rw [clean_of_not_mem h, segments_lead]
  | slash piece rest h ih =>
    rw [clean_slash h, segments_append (startsWith_clean rest), ih, segments_slash]
    by_cases hn : piece = ""
    · rw [if_pos hn, hn]
    · rw [if_neg hn, segments_lead]

@[simp] theorem isFolder_clean (uri : String) : IsFolder (clean uri) ↔ IsFolder uri := by
  have hn := ne_empty_of_startsWith (startsWith_clean uri)
  by_cases h : uri = ""
  · rw [h]
    decide
  · rw [IsFolder, IsFolder, or_iff_right hn, or_iff_right h, endsWith_clean h]

/-- Two URIs are cleaned to the same one exactly if they have the same segments and the same
ending. -/
theorem clean_eq_clean_iff :
    clean a = clean b ↔ segments a = segments b ∧ (IsFolder a ↔ IsFolder b) := by
  constructor
  · intro h
    rw [← segments_clean a, ← isFolder_clean a, h, segments_clean, isFolder_clean]
    exact ⟨rfl, Iff.rfl⟩
  · rintro ⟨hs, hf⟩
    simp only [clean_eq, hs, hf]

/-! What tells a cleaned URI from others. -/

theorem spaced_iff : Spaced '/' uri.toList ↔ ∀ before after, uri ≠ before ++ "//" ++ after := by
  rw [Spaced, List.isChain_iff_forall_rel_of_append_cons_cons]
  constructor
  · rintro h before after rfl
    exact @h '/' '/' before.toList after.toList (by simp) ⟨rfl, rfl⟩
  · rintro h _ _ before after hs ⟨rfl, rfl⟩
    exact h (.ofList before) (.ofList after) (String.ext (by simp [hs]))

/-- A URI is clean already if it starts with a slash, and no slash is doubled. -/
theorem clean_eq_self (hl : Text.startsWith "/" uri = true) (hs : Spaced '/' uri.toList) :
    clean uri = uri := by
  refine String.ext ?_
  rw [toList_clean_of_slash hl]
  obtain ⟨rest, rfl⟩ := Text.startsWith_iff.mp hl
  have hlist : ("/" ++ rest).toList = '/' :: rest.toList := by simp
  have hfirst : false = true → '/' ≠ '/' := nofun
  rw [hlist] at hs ⊢
  simpa [collapse] using collapse_append hs hfirst []

/-- A text that has what makes the clean form of a URI is that form. -/
theorem clean_eq_iff : clean uri = result ↔ IsCanonical uri result := by
  constructor
  · rintro rfl
    have hn := ne_empty_of_startsWith (startsWith_clean uri)
    exact ⟨Text.startsWith_iff.mp (startsWith_clean uri), spaced_iff.mp (spaced_clean uri),
      segments_clean uri, (or_iff_right hn).symm.trans (isFolder_clean uri)⟩
  · rintro ⟨hslash, hsingle, hsegments, hending⟩
    have hstart := Text.startsWith_iff.mpr hslash
    have hself : clean result = result := clean_eq_self hstart (spaced_iff.mpr hsingle)
    have hfolder : IsFolder uri ↔ IsFolder result :=
      hending.symm.trans (or_iff_right (ne_empty_of_startsWith hstart)).symm
    exact (clean_eq_clean_iff.mpr ⟨hsegments.symm, hfolder⟩).trans hself

/-- A name behind a slash may be cleaned before. -/
theorem clean_append_slash_clean (uri name : String) :
    clean (uri ++ "/" ++ clean name) = clean (uri ++ "/" ++ name) := by
  simp [clean_eq_clean_iff, segments_slash, isFolder_slash]

/-- A slash in front of a name that starts with one makes no difference. -/
theorem clean_append_slash {name : String} (h : Text.startsWith "/" name = true) (uri : String) :
    clean (uri ++ "/" ++ name) = clean (uri ++ name) := by
  rw [clean_eq_clean_iff]
  obtain ⟨rest, rfl⟩ := Text.startsWith_iff.mp h
  have happend : uri ++ ("/" ++ rest) = uri ++ "/" ++ rest := String.append_assoc.symm
  rw [happend, segments_slash, segments_slash, segments_lead, isFolder_slash,
    isFolder_slash, isFolder_lead]
  exact ⟨rfl, Iff.rfl⟩

/-- Cleaning is a canonical form. A cleaned URI starts with a slash, doubles none, has the segments of
the URI, the empty ones apart, and ends in a slash if and only if the URI does or is empty, and it's
the only text like that. So it's left alone by cleaning, two URIs have the same one if they have the
same segments and end alike, and the parts of a URI may be cleaned before they're put together. -/
theorem clean_canonical :
    (∀ uri result, clean uri = result ↔ IsCanonical uri result) ∧
    (∀ uri, clean (clean uri) = clean uri) ∧
    (∀ a b, clean a = clean b ↔ segments a = segments b ∧ (IsFolder a ↔ IsFolder b)) ∧
    ∀ a b, clean (a ++ "/" ++ b) = clean (clean a ++ "/" ++ clean b) := by
  refine ⟨fun _ _ => clean_eq_iff, fun _ => ?_, fun _ _ => clean_eq_clean_iff, fun _ _ => ?_⟩
  · exact clean_clean _
  · simp [clean_eq_clean_iff, segments_slash, isFolder_slash]

end RequestRouting
