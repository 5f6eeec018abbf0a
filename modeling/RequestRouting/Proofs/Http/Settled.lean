import RequestRouting.Http.Message
import RequestRouting.Proofs.Http.Written

/-!
# References that are written as they were read

Paths are written one character at a time. A character that can't stand for itself is written as one
escape for each of its bytes, with digits in upper case. So what is written for the path of a
reference is the reference again if it has just these escapes, and no number sign, which is taken for
a part of the path.
-/

namespace RequestRouting

theorem Text.Percent.encode_append (escaped : UInt8 → Bool) (a b : List UInt8) :
    encode escaped (a ++ b) = encode escaped a ++ encode escaped b := by
  induction a with
  | nil => rfl
  | cons byte a ih =>
    rw [List.cons_append, encode, encode, ih]
    split <;> rfl

/-- The three characters that a byte is escaped with. -/
def Text.Percent.escape (b : UInt8) : List UInt8 := [0x25, digit (b / 16), digit (b % 16)]

theorem Text.Percent.encode_of_all {escaped : UInt8 → Bool} {bytes : List UInt8}
    (h : ∀ b ∈ bytes, escaped b = true) : encode escaped bytes = bytes.flatMap escape := by
  induction bytes with
  | nil => rfl
  | cons b rest ih =>
    rw [encode, if_pos (h b List.mem_cons_self),
      ih fun b' hb => h b' (List.mem_cons_of_mem _ hb), List.flatMap_cons]
    rfl

namespace Uri

/-- Whether a character can't stand for itself in a path. -/
def needsEscape (c : Char) : Bool := 0x80 ≤ c.toNat || isEscaped (.ofNat c.toNat)

/-- The escapes of a character, one for each of its bytes. -/
def escapes (c : Char) : List Char :=
  ((String.utf8EncodeChar c).flatMap Text.Percent.escape).map fun b => .ofNat b.toNat

/-- What is written for a character of a path. -/
def written (c : Char) : List Char := if needsEscape c then escapes c else [c]

theorem encode_encodeChar (c : Char) :
    (Text.Percent.encode isEscaped (String.utf8EncodeChar c)).map (fun b => .ofNat b.toNat) =
      written c := by
  unfold written
  by_cases hc : c.toNat < 0x80
  · have hb := Text.Utf8.encodeChar_of_lt hc
    have hn : needsEscape c = isEscaped (.ofNat c.toNat) := by
      simp [needsEscape, Nat.not_le.mpr hc]
    cases he : isEscaped (.ofNat c.toNat) with
    | true => simp [hn, he, escapes, hb, Text.Percent.encode, Text.Percent.escape]
    | false =>
      have hback : (UInt8.ofNat c.toNat).toNat = c.toNat := Text.Utf8.toNat_byte (by omega)
      simp [hn, he, hb, Text.Percent.encode, hback]
  · have hn : needsEscape c = true := by simp [needsEscape, Nat.not_lt.mp hc]
    have hall : ∀ b ∈ String.utf8EncodeChar c, isEscaped b = true := by
      intro b hb
      -- A byte that isn't escaped would be the character.
      cases he : isEscaped b with
      | true => rfl
      | false =>
        have hlt := lt_of_isEscaped he
        rw [Text.Utf8.eq_of_mem_encodeChar hlt hb, Text.Utf8.toNat_ofNat hlt] at hc
        exact absurd hlt hc
    rw [if_pos hn, Text.Percent.encode_of_all hall, escapes]

/-- A path is written one character at a time. -/
theorem toList_encode_eq (path : String) : (encode path).toList = path.toList.flatMap written := by
  rw [toList_encode]
  induction path.toList with
  | nil => rfl
  | cons c s ih =>
    rw [Text.Utf8.encode] at ih
    rw [Text.Utf8.encode, List.flatMap_cons, Text.Percent.encode_append, List.map_append, ih,
      encode_encodeChar, List.flatMap_cons]

/-- The characters that references are made of: letters, digits, marks, delimiters, and the percent
sign of escapes. -/
def referenceChars : String :=
  "ABCDEFGHIJKLMNOPQRSTUVWXYZabcdefghijklmnopqrstuvwxyz0123456789-._~:/?#[]@!$&'()*+,;=%"

def isReferenceChar (c : Char) : Bool := referenceChars.toList.contains c

/-- Whether the path of a reference has no number sign, and no escapes but those of characters that
need them. -/
inductive IsSettledPath : List Char → Prop where
  | nil : IsSettledPath []
  | plain {c : Char} {s : List Char} (hn : c ≠ '#') (hp : c ≠ '%') (h : IsSettledPath s) :
      IsSettledPath (c :: s)
  | escaped {c : Char} {s : List Char} (hc : needsEscape c = true) (h : IsSettledPath s) :
      IsSettledPath (escapes c ++ s)

/-- Whether a reference has a settled path, and a query that isn't empty if it has any. -/
def IsSettled (text : String) : Prop :=
  match Text.cut? '?' text with
  | some (path, query) => IsSettledPath path.toList ∧ query ≠ ""
  | none => IsSettledPath text.toList

/-- Of the characters that references are made of, those that can't stand for themselves in a path
are these two, and the question mark, which ends it. -/
theorem needsEscape_eq_false {c : Char} (h : isReferenceChar c = true) (hn : c ≠ '#') (hp : c ≠ '%')
    (hq : c ≠ '?') : needsEscape c = false := by
  have hall : (referenceChars.toList.all fun c =>
      c = '#' || c = '%' || c = '?' || !needsEscape c) = true := by
    decide +kernel
  simpa [hn, hp, hq] using List.all_eq_true.mp hall c (List.contains_iff_mem.mp h)

variable {text path query : String}

/-- A path that is settled is written for some path. -/
theorem IsSettledPath.exists_written {s : List Char} (h : IsSettledPath s)
    (hr : ∀ c ∈ s, isReferenceChar c = true) (hq : '?' ∉ s) :
    ∃ chars : List Char, s = chars.flatMap written := by
  induction h with
  | nil => exact ⟨[], rfl⟩
  | @plain c s hn hp _ ih =>
    rw [List.mem_cons, not_or] at hq
    obtain ⟨chars, rfl⟩ := ih (fun c hc => hr c (List.mem_cons_of_mem _ hc)) hq.2
    have hc := needsEscape_eq_false (hr c List.mem_cons_self) hn hp (Ne.symm hq.1)
    exact ⟨c :: chars, by rw [List.flatMap_cons, written, hc]; rfl⟩
  | @escaped c s hc _ ih =>
    rw [List.mem_append, not_or] at hq
    obtain ⟨chars, rfl⟩ := ih (fun c hc => hr c (List.mem_append_right _ hc)) hq.2
    exact ⟨c :: chars, by rw [List.flatMap_cons, written, if_pos hc]⟩

theorem isSettledPath_flatMap (chars : List Char) : IsSettledPath (chars.flatMap written) := by
  induction chars with
  | nil => exact .nil
  | cons c chars ih =>
    rw [List.flatMap_cons, written]
    split
    · rename_i hc
      exact .escaped hc ih
    · rename_i hc
      refine .plain ?_ ?_ ih
      · rintro rfl
        exact hc (by decide)
      · rintro rfl
        exact hc (by decide)

/-- Reading a path and writing it again makes no difference exactly if it's settled. -/
theorem encode_decode_eq_self_iff (hr : ∀ c ∈ path.toList, isReferenceChar c = true)
    (hq : '?' ∉ path.toList) : encode (decode path) = path ↔ IsSettledPath path.toList := by
  constructor
  · intro he
    rw [← he, toList_encode_eq]
    exact isSettledPath_flatMap _
  · intro hs
    obtain ⟨chars, hc⟩ := hs.exists_written hr hq
    have hpath : encode (.ofList chars) = path :=
      String.ext (by rw [toList_encode_eq, String.toList_ofList, hc])
    rw [← hpath, decode_encode]

/-- A reference is written as it was read exactly if it's settled. -/
theorem text_parse_eq_self_iff (hr : ∀ c ∈ text.toList, isReferenceChar c = true) :
    (parse text).text = text ↔ IsSettled text := by
  unfold IsSettled parse
  cases hc : Text.cut? '?' text with
  | none =>
    have hq : '?' ∉ text.toList := Text.Chars.not_mem_of_cut? (Option.map_eq_none_iff.mp hc)
    dsimp only
    rw [← encode_decode_eq_self_iff hr hq, Uri.text]
    simp [ofParts]
  | some p =>
    obtain ⟨path, query⟩ := p
    have hq := Text.not_mem_of_cut?_eq_some hc
    have ht : text = path ++ ("?" ++ query) := String.ext (by simp [Text.toList_of_cut? hc])
    have hpath : ∀ c ∈ path.toList, isReferenceChar c = true := by
      intro c hmem
      exact hr c (by rw [ht, String.toList_append]; exact List.mem_append_left _ hmem)
    dsimp only
    rw [← encode_decode_eq_self_iff hpath hq, Uri.text]
    by_cases hn : query = ""
    · -- An empty query is left out, and what is written for a path has no question mark.
      have hf : (ofParts (decode path) (some query)).query = none := by rw [hn]; rfl
      have hne : encode (decode path) ≠ text := by
        intro he
        have hmark := not_mem_encode (decode path)
        rw [he, ht] at hmark
        simp at hmark
      rw [hf]
      simpa [ofParts, hn] using hne
    · have hf : (ofParts (decode path) (some query)).query = some query := by
        simp [ofParts, Option.filter_some, hn]
      rw [hf, ht]
      simp [ofParts, hn]

end Uri

/-- The location of a redirection is the one it's made for. -/
theorem Response.get?_redirect (status : Status) (location : String) :
    (redirect status location).headers.get? .location = some location := by
  have hn : Header.location ≠ .contentLength := by decide
  simp only [redirect, header]
  rw [Keyed.get?_insert_of_ne _ hn, Keyed.get?_insert_self]

end RequestRouting
