import RequestRouting.Proofs.Http.Escapes

/-!
# URIs that were written

Writing a URI escapes whatever reading would take for something else: the percent sign of escapes,
the question mark that starts the query, and all bytes beyond ASCII. So a written URI is read as
what it was, and reading a text and writing it again settles on the first try.
-/

namespace RequestRouting

namespace Text.Utf8

/-- Bytes of ASCII are the encoding of the characters with their numbers. -/
theorem encode_map_ofNat {bytes : List UInt8} (h : ∀ b ∈ bytes, b.toNat < 0x80) :
    encode (bytes.map fun b => .ofNat b.toNat) = bytes := by
  induction bytes with
  | nil => rfl
  | cons b rest ih =>
    have hb : b.toNat < 0x80 := h b List.mem_cons_self
    have hc : (Char.ofNat b.toNat).toNat = b.toNat := toNat_ofNat hb
    have hrest : encode (rest.map fun b => .ofNat b.toNat) = rest :=
      ih fun b' hb' => h b' (List.mem_cons_of_mem b hb')
    rw [encode] at hrest
    rw [encode, List.map_cons, List.flatMap_cons, encodeChar_of_lt (by omega), hc, hrest]
    simp

end Text.Utf8

namespace Text.Percent

variable {escaped : UInt8 → Bool} {b n : UInt8}

/-- A digit that was written is read as its value. -/
theorem digit?_digit (h : n < 16) : digit? (digit n) = some n := by
  have hall : ∀ k : Fin 16, digit? (digit (.ofNat k)) = some (.ofNat k) := by decide
  have hn : n.toNat < 16 := h
  simpa using hall ⟨n.toNat, hn⟩

/-- A byte is put together from the values of its two digits. -/
theorem halves (b : UInt8) : b / 16 < 16 ∧ b % 16 < 16 ∧ b / 16 * 16 + b % 16 = b := by
  have hb := b.toNat_lt
  refine ⟨?_, ?_, ?_⟩
  · rw [UInt8.lt_iff_toNat_lt]
    simp
    omega
  · rw [UInt8.lt_iff_toNat_lt]
    simp
    omega
  · apply UInt8.toNat_inj.mp
    simp
    omega

/-- What is written is a percent sign, a digit, or a byte that needs no escape. -/
theorem mem_encode {bytes : List UInt8} (h : b ∈ encode escaped bytes) :
    b = 0x25 ∨ (digit? b).isSome ∨ escaped b = false := by
  induction bytes with
  | nil => simp [encode] at h
  | cons c rest ih =>
    rw [encode] at h
    split at h
    · obtain ⟨hhigh, hlow, -⟩ := halves c
      simp only [List.mem_cons] at h
      rcases h with rfl | rfl | rfl | h
      · exact Or.inl rfl
      · simp [digit?_digit hhigh]
      · simp [digit?_digit hlow]
      · exact ih h
    · rename_i hc
      rcases List.mem_cons.mp h with rfl | h
      · simp [hc]
      · exact ih h

/-- If percent signs are escaped, bytes are read as they were before. -/
theorem decode_encode (h : escaped 0x25 = true) (bytes : List UInt8) :
    decode (encode escaped bytes) = bytes := by
  induction bytes with
  | nil => rfl
  | cons b rest ih =>
    obtain ⟨hhigh, hlow, hvalue⟩ := halves b
    rw [encode]
    split
    · simp only [decode, digit?_digit hhigh, digit?_digit hlow, hvalue, ih]
    · rename_i hn
      have hp : (0x25 : UInt8) ∉ [b] := by
        simp only [List.mem_singleton]
        rintro rfl
        exact hn h
      have hd := decode_append hp (encode escaped rest)
      simpa [ih] using hd

end Text.Percent

namespace Uri

/-- A byte that's written as it is belongs to ASCII. -/
theorem lt_of_isEscaped {b : UInt8} (h : isEscaped b = false) : b.toNat < 0x80 := by
  have h' : ¬0x7F ≤ b := by
    intro hb
    simp [isEscaped, hb] at h
  have hb : b.toNat < 0x7F := by simpa [UInt8.le_iff_toNat_le] using h'
  omega

variable {path : String}

theorem toList_encode (path : String) : (encode path).toList =
    (Text.Percent.encode isEscaped (Text.Utf8.encode path.toList)).map fun b => .ofNat b.toNat := by
  rw [encode, String.toList_ofList]

/-- Whatever a path holds, it's written in ASCII. -/
theorem lt_of_mem_encode {b : UInt8}
    (h : b ∈ Text.Percent.encode isEscaped (Text.Utf8.encode path.toList)) : b.toNat < 0x80 := by
  rcases Text.Percent.mem_encode h with rfl | hd | he
  · decide
  · obtain ⟨d, hd⟩ := Option.isSome_iff_exists.mp hd
    exact Text.Percent.lt_of_digit? hd
  · exact lt_of_isEscaped he

/-- A written path has no question mark. -/
theorem not_mem_encode (path : String) : '?' ∉ (encode path).toList := by
  rw [toList_encode]
  intro h
  obtain ⟨b, hb, hc⟩ := List.mem_map.mp h
  have hlt := lt_of_mem_encode hb
  have hn : b.toNat = 0x3F := by
    have hnat := congrArg Char.toNat hc
    rwa [Text.Utf8.toNat_ofNat hlt] at hnat
  obtain rfl : b = 0x3F := UInt8.toNat_inj.mp hn
  -- It's neither a percent sign nor a digit, and it would have been escaped.
  have hq := Text.Percent.mem_encode hb
  revert hq
  decide

/-- A written path is read as it was. -/
theorem decode_encode (path : String) : decode (encode path) = path := by
  rw [decode, toList_encode, Text.Utf8.encode_map_ofNat fun _ => lt_of_mem_encode,
    Text.Percent.decode_encode (by decide), Text.Utf8.decodeLenient_encode, String.ofList_toList]

/-- A written URI is read as what it's made of. -/
theorem parse_text (uri : Uri) : parse uri.text = ofParts uri.path uri.query := by
  have hn := not_mem_encode uri.path
  rw [text, parse]
  cases hq : uri.query with
  | none => rw [String.append_empty, Text.cut?, Text.Chars.cut?_eq_none hn, Option.map_none,
      decode_encode]
  | some query =>
    have hc : Text.cut? '?' (encode uri.path ++ ("?" ++ query)) =
        some (encode uri.path, query) := by
      rw [← String.append_assoc]
      exact Text.cut?_append hn query
    simp only [hc, decode_encode]

theorem ofParts_eq_iff {path : String} {query : Option String} :
    ofParts path query = ⟨path, query⟩ ↔ query ≠ some "" := by
  cases query with
  | none => simp [ofParts]
  | some query => simp [ofParts]

/-- The query of a URI that was read isn't empty. -/
theorem query_parse (text : String) : (parse text).query ≠ some "" := by
  rw [parse]
  split
  · simp [ofParts]
  · simp [ofParts]

/-- Exactly the URIs without an empty query are read as they were written, whatever their path and
query are made of. All URIs that were read are among these. -/
theorem parse_text_eq_self_iff :
    (∀ uri : Uri, parse uri.text = uri ↔ uri.query ≠ some "") ∧
      ∀ text : String, parse (parse text).text = parse text := by
  have hiff (uri : Uri) : parse uri.text = uri ↔ uri.query ≠ some "" := by
    rw [parse_text]
    exact ofParts_eq_iff
  exact ⟨hiff, fun text => (hiff _).mpr (query_parse text)⟩

end Uri

end RequestRouting
