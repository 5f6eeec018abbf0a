import RequestRouting.Proofs.Http.Uri

/-!
# Texts with escapes

A text with escapes is put together from characters that stand for themselves and from bytes that
are written as three characters. Whatever these bytes are, a character that is read from them takes
up at least one of them, so a text with an escape is decoded to a shorter one.
-/

namespace RequestRouting

namespace Text.Utf8

/-- A byte that continues a sequence. -/
def IsTail (b : UInt8) : Prop := 0x80 ≤ b.toNat ∧ b.toNat ≤ 0xBF

variable {b : UInt8} {rest : List UInt8} {n low high value : Nat}

theorem lead?_of_isTail (h : IsTail b) : lead? b.toNat = none := by
  obtain ⟨hl, hh⟩ := h
  generalize b.toNat = b at hl hh
  have h₁ : ¬0xC2 ≤ b := by omega
  have h₂ : ¬0xE1 ≤ b := by omega
  have h₃ : ¬0xF1 ≤ b := by omega
  have h₄ : b ≠ 0xE0 ∧ b ≠ 0xED ∧ b ≠ 0xF0 ∧ b ≠ 0xF4 := by omega
  simp [lead?, h₁, h₂, h₃, h₄]

/-- No character starts with a byte that continues a sequence. -/
theorem first_of_isTail (h : IsTail b) (rest : List UInt8) : first b rest = (none, 0) := by
  have hn : ¬b.toNat < 0x80 := by
    have := h.1
    omega
  simp only [first, if_neg hn, lead?_of_isTail h]

/-- The second byte of a sequence continues it, whatever range it must be in. -/
theorem range_of_lead? {b : Nat} (h : lead? b = some (n, low, high)) :
    0x80 ≤ low ∧ high ≤ 0xBF := by
  have := of_lead? h
  omega

theorem isTail_of_tail? (hl : 0x80 ≤ low) (hh : high ≤ 0xBF)
    (h : tail? n low high value rest = some k) : ∀ b ∈ rest.take n, IsTail b := by
  induction n generalizing low high value rest with
  | zero => simp
  | succ n ih =>
    cases rest with
    | nil => simp
    | cons b rest =>
      rw [tail?] at h
      split at h
      · rename_i hb
        simp only [Bool.and_eq_true, decide_eq_true_eq] at hb
        have ht := ih (by omega) (by omega) h
        have hb' : IsTail b := ⟨by omega, by omega⟩
        simpa using ⟨hb', ht⟩
      · cases h

theorem isTail_of_tailLength (hl : 0x80 ≤ low) (hh : high ≤ 0xBF) :
    ∀ b ∈ rest.take (tailLength n low high rest), IsTail b := by
  induction n generalizing low high rest with
  | zero => simp [tailLength]
  | succ n ih =>
    cases rest with
    | nil => simp
    | cons b rest =>
      rw [tailLength]
      split
      · rename_i hb
        simp only [Bool.and_eq_true, decide_eq_true_eq] at hb
        have ht : ∀ b' ∈ rest.take (tailLength n 0x80 0xBF rest), IsTail b' :=
          ih (Nat.le_refl 0x80) (Nat.le_refl 0xBF)
        have hb' : IsTail b := ⟨by omega, by omega⟩
        simpa using ⟨hb', ht⟩
      · simp

/-- All bytes that belong to a character, or to a malformed piece, continue its first one. -/
theorem isTail_of_first (b : UInt8) (rest : List UInt8) :
    ∀ b' ∈ rest.take (first b rest).2, IsTail b' := by
  unfold first
  split
  · simp
  · cases hl : lead? b.toNat with
    | none => simp
    | some range =>
      obtain ⟨n, low, high⟩ := range
      obtain ⟨hlow, hhigh⟩ := range_of_lead? hl
      dsimp only
      cases ht : tail? n low high (b.toNat % Nat.pow 2 (6 - n)) rest with
      | some value => exact isTail_of_tail? hlow hhigh ht
      | none => exact isTail_of_tailLength hlow hhigh

theorem toNat_ofNat {n : Nat} (h : n < 0x80) : (Char.ofNat n).toNat = n :=
  toNat_of_isValidChar (Or.inl (by omega))

/-- A character of ASCII is encoded as the byte with its number. -/
theorem encodeChar_of_lt {c : Char} (h : c.toNat < 0x80) :
    String.utf8EncodeChar c = [.ofNat c.toNat] := by
  have hv : c.val.toNat ≤ 0x7F := Nat.le_of_lt_succ h
  unfold String.utf8EncodeChar
  simp only [hv, if_true]
  rfl

/-- A text whose bytes start with one of ASCII starts with that character. -/
theorem exists_of_encode_eq {s : List Char} (hb : b.toNat < 0x80) (h : encode s = b :: rest) :
    ∃ s', s = .ofNat b.toNat :: s' ∧ rest = encode s' := by
  cases s with
  | nil => cases h
  | cons c s =>
    have hc : c = .ofNat b.toNat := by
      obtain ⟨b', tail, he, -⟩ := first_encode c []
      rw [encode, List.flatMap_cons, he] at h
      obtain rfl : b' = b := (List.cons.inj h).1
      exact eq_of_mem_encodeChar hb (by rw [he]; exact List.mem_cons_self)
    subst hc
    rw [encode, List.flatMap_cons, encodeChar_of_lt (by rwa [toNat_ofNat hb])] at h
    exact ⟨s, rfl, (List.cons.inj h).2.symm⟩

end Text.Utf8

namespace Text.Percent

/-- The value of a hexadecimal digit. -/
def digitOf? (c : Char) : Option UInt8 := if c.toNat < 0x80 then digit? (.ofNat c.toNat) else none

/-- A piece of a text with escapes. -/
inductive Piece where
  /-- A character that stands for itself. -/
  | char (c : Char)
  /-- An escape. -/
  | byte (b : UInt8)

/-- The bytes a piece stands for. -/
def Piece.bytes : Piece → List UInt8
  | char c => String.utf8EncodeChar c
  | byte b => [b]

/-- Whether a character in front of a text doesn't start an escape. -/
def IsPlain (c : Char) (rest : List Char) : Prop :=
  ∀ high low after, c = '%' → rest = high :: low :: after →
    digitOf? high = none ∨ digitOf? low = none

/-- The pieces of a text, from left to right. -/
inductive Pieces : List Char → List Piece → Prop where
  | nil : Pieces [] []
  | char {c : Char} {rest : List Char} {ps : List Piece} (hc : IsPlain c rest)
      (h : Pieces rest ps) : Pieces (c :: rest) (.char c :: ps)
  | byte {h l : Char} {dh dl : UInt8} {rest : List Char} {ps : List Piece}
      (hh : digitOf? h = some dh) (hl : digitOf? l = some dl) (hr : Pieces rest ps) :
      Pieces ('%' :: h :: l :: rest) (.byte (dh * 16 + dl) :: ps)

/-- Whether a text has a percent sign that's followed by two digits. -/
def HasEscape (s : List Char) : Prop :=
  ∃ before high low after, s = before ++ '%' :: high :: low :: after ∧
    (digitOf? high).isSome ∧ (digitOf? low).isSome

theorem lt_of_digit? {b d : UInt8} (h : digit? b = some d) : b.toNat < 0x80 := by
  unfold digit? at h
  simp only [Bool.and_eq_true, decide_eq_true_eq, UInt8.le_iff_toNat_le] at h
  have h₁ : UInt8.toNat 0x39 = 0x39 := rfl
  have h₂ : UInt8.toNat 0x46 = 0x46 := rfl
  have h₃ : UInt8.toNat 0x66 = 0x66 := rfl
  split at h
  · omega
  split at h
  · omega
  split at h
  · omega
  · cases h

theorem digitOf?_ofNat {b d : UInt8} (h : digit? b = some d) :
    digitOf? (.ofNat b.toNat) = some d := by
  have hb := lt_of_digit? h
  rw [digitOf?, Utf8.toNat_ofNat hb, if_pos hb, UInt8.ofNat_toNat, h]

/-- The bytes of digits are those of the characters. -/
theorem encode_digit {c : Char} {d : UInt8} (h : digitOf? c = some d) :
    String.utf8EncodeChar c = [.ofNat c.toNat] ∧ digit? (.ofNat c.toNat) = some d := by
  unfold digitOf? at h
  split at h
  · rename_i hc
    exact ⟨Utf8.encodeChar_of_lt hc, h⟩
  · cases h

theorem decode_append {bytes : List UInt8} (h : 0x25 ∉ bytes) (rest : List UInt8) :
    decode (bytes ++ rest) = bytes ++ decode rest := by
  induction bytes with
  | nil => rfl
  | cons b bytes ih =>
    rw [List.mem_cons, not_or] at h
    rw [List.cons_append, decode]
    · rw [ih h.2, List.cons_append]
    · rintro _ _ _ rfl
      exact absurd rfl h.1

/-- A percent sign that isn't followed by two digits stands for itself. -/
theorem decode_percent {s : List Char}
    (h : ∀ high low rest, s = high :: low :: rest → digitOf? high = none ∨ digitOf? low = none) :
    decode (0x25 :: Utf8.encode s) = 0x25 :: decode (Utf8.encode s) := by
  rcases hs : Utf8.encode s with _ | ⟨high, _ | ⟨low, rest⟩⟩
  · rfl
  · rfl
  · rw [decode]
    split
    · rename_i hh hl
      obtain ⟨s₁, rfl, hs₁⟩ := Utf8.exists_of_encode_eq (lt_of_digit? hh) hs
      obtain ⟨s₂, rfl, -⟩ := Utf8.exists_of_encode_eq (lt_of_digit? hl) hs₁.symm
      rcases h _ _ s₂ rfl with hn | hn
      · rw [digitOf?_ofNat hh] at hn
        cases hn
      · rw [digitOf?_ofNat hl] at hn
        cases hn
    · rfl

/-- A character starts an escape or doesn't. -/
theorem isPlain_or (c : Char) (rest : List Char) : IsPlain c rest ∨
    ∃ h l after dh dl, c = '%' ∧ rest = h :: l :: after ∧
      digitOf? h = some dh ∧ digitOf? l = some dl := by
  rcases rest with _ | ⟨h, _ | ⟨l, after⟩⟩
  · exact Or.inl nofun
  · exact Or.inl nofun
  · by_cases hc : c = '%'
    · cases hh : digitOf? h with
      | none =>
        refine Or.inl ?_
        rintro _ _ _ - ⟨⟩
        exact Or.inl hh
      | some dh =>
        cases hl : digitOf? l with
        | none =>
          refine Or.inl ?_
          rintro _ _ _ - ⟨⟩
          exact Or.inr hl
        | some dl => exact Or.inr ⟨h, l, after, dh, dl, hc, rfl, hh, hl⟩
    · exact Or.inl fun _ _ _ he => absurd he hc

/-- Every text has pieces. -/
theorem exists_pieces (s : List Char) : ∃ ps, Pieces s ps := by
  induction hn : s.length using Nat.strongRecOn generalizing s with
  | _ n ih =>
    cases s with
    | nil => exact ⟨[], .nil⟩
    | cons c rest =>
      rw [List.length_cons] at hn
      rcases isPlain_or c rest with hc | ⟨h, l, after, dh, dl, rfl, rfl, hh, hl⟩
      · obtain ⟨ps, hps⟩ := ih rest.length (by omega) rest rfl
        exact ⟨_, .char hc hps⟩
      · simp only [List.length_cons] at hn
        obtain ⟨ps, hps⟩ := ih after.length (by omega) after rfl
        exact ⟨_, .byte hh hl hps⟩

/-- Whether a text starts with an escape. -/
def startsEscape : List Char → Bool
  | '%' :: high :: low :: _ => (digitOf? high).isSome && (digitOf? low).isSome
  | _ => false

theorem startsEscape_eq_true {s : List Char} : startsEscape s = true ↔
    ∃ high low after, s = '%' :: high :: low :: after ∧
      (digitOf? high).isSome ∧ (digitOf? low).isSome := by
  constructor
  · intro h
    unfold startsEscape at h
    split at h
    · exact ⟨_, _, _, rfl, by simpa using h⟩
    · cases h
  · rintro ⟨high, low, after, rfl, hh, hl⟩
    simp [startsEscape, hh, hl]

theorem hasEscape_cons_iff {c : Char} {s : List Char} :
    HasEscape (c :: s) ↔ startsEscape (c :: s) = true ∨ HasEscape s := by
  rw [startsEscape_eq_true]
  constructor
  · rintro ⟨before, high, low, after, hs, hd⟩
    cases before with
    | nil => exact Or.inl ⟨high, low, after, hs, hd⟩
    | cons b before =>
      obtain ⟨rfl, rfl⟩ := List.cons.inj hs
      exact Or.inr ⟨before, high, low, after, rfl, hd⟩
  · rintro (⟨high, low, after, hs, hd⟩ | ⟨before, high, low, after, rfl, hd⟩)
    · exact ⟨[], high, low, after, hs, hd⟩
    · exact ⟨c :: before, high, low, after, rfl, hd⟩

theorem hasEscape_cons {c : Char} {s : List Char} (hc : IsPlain c s) :
    HasEscape (c :: s) ↔ HasEscape s := by
  rw [hasEscape_cons_iff, startsEscape_eq_true]
  refine or_iff_right ?_
  rintro ⟨high, low, after, hs, hh, hl⟩
  obtain ⟨rfl, rfl⟩ := List.cons.inj hs
  rcases hc high low after rfl rfl with hn | hn
  · rw [hn] at hh
    cases hh
  · rw [hn] at hl
    cases hl

instance decidableHasEscape : (s : List Char) → Decidable (HasEscape s)
  | [] => isFalse fun ⟨before, _, _, _, hs, _⟩ => by simp at hs
  | _ :: s =>
    have := decidableHasEscape s
    decidable_of_iff _ hasEscape_cons_iff.symm

namespace Pieces

variable {s : List Char} {ps : List Piece}

/-- Decoding a text yields the bytes its pieces stand for. -/
theorem decode_encode (h : Pieces s ps) : decode (Utf8.encode s) = ps.flatMap Piece.bytes := by
  have hpercent (t : List Char) : Utf8.encode ('%' :: t) = 0x25 :: Utf8.encode t := rfl
  induction h with
  | nil => rfl
  | @char c rest ps hc _ ih =>
    by_cases hp : c = '%'
    · subst hp
      rw [hpercent, decode_percent fun high low after => hc high low after rfl, ih,
        List.flatMap_cons]
      rfl
    · have hb : (0x25 : UInt8) ∉ String.utf8EncodeChar c := fun hb =>
        hp (Utf8.eq_of_mem_encodeChar (by decide) hb)
      rw [Utf8.encode, List.flatMap_cons, decode_append hb, List.flatMap_cons, ← ih]
      rfl
  | @byte h l dh dl rest ps hh hl _ ih =>
    obtain ⟨hbh, hdh⟩ := encode_digit hh
    obtain ⟨hbl, hdl⟩ := encode_digit hl
    have hbytes : Utf8.encode (h :: l :: rest) =
        .ofNat h.toNat :: .ofNat l.toNat :: Utf8.encode rest := by
      simp only [Utf8.encode, List.flatMap_cons, hbh, hbl, List.singleton_append]
    rw [hpercent, hbytes, decode, hdh, hdl, List.flatMap_cons, ← ih]
    rfl

theorem length_le (h : Pieces s ps) : ps.length ≤ s.length := by
  induction h with
  | nil => exact Nat.le_refl 0
  | char _ _ ih => exact Nat.succ_le_succ ih
  | byte _ _ _ ih =>
    simp only [List.length_cons]
    omega

/-- A text with an escape has less pieces than characters. -/
theorem length_lt (h : Pieces s ps) (he : HasEscape s) : ps.length < s.length := by
  induction h with
  | nil =>
    obtain ⟨before, high, low, after, hs, -⟩ := he
    simp at hs
  | char hc _ ih => exact Nat.succ_lt_succ (ih ((hasEscape_cons hc).mp he))
  | byte _ _ hr _ =>
    have := hr.length_le
    simp only [List.length_cons]
    omega

/-- Without escapes, the pieces of a text are its characters. -/
theorem eq_map_char (h : Pieces s ps) (he : ¬HasEscape s) : ps = s.map .char := by
  induction h with
  | nil => rfl
  | char hc _ ih => rw [ih (mt (hasEscape_cons hc).mpr he), List.map_cons]
  | @byte h l dh dl rest ps hh hl _ _ =>
    exact absurd ⟨[], h, l, rest, rfl, by rw [hh]; rfl, by rw [hl]; rfl⟩ he

end Pieces

/-- Bytes that continue a sequence are pieces of their own. -/
theorem exists_drop_flatMap {n : Nat} {ps : List Piece}
    (h : ∀ b ∈ (ps.flatMap Piece.bytes).take n, Utf8.IsTail b) :
    ∃ ps' : List Piece, (ps.flatMap Piece.bytes).drop n = ps'.flatMap Piece.bytes ∧
      ps'.length ≤ ps.length := by
  induction n generalizing ps with
  | zero => exact ⟨ps, rfl, Nat.le_refl _⟩
  | succ n ih =>
    rcases ps with _ | ⟨c | b, ps⟩
    · exact ⟨[], rfl, Nat.le_refl _⟩
    · -- A character would start within the sequence.
      obtain ⟨b, tail, he, hf⟩ := Utf8.first_encode c []
      have hb : Utf8.IsTail b := by
        apply h
        simp [Piece.bytes, he]
      rw [Utf8.first_of_isTail hb] at hf
      cases hf
    · have ht : ∀ b ∈ (ps.flatMap Piece.bytes).take n, Utf8.IsTail b := by
        intro b' hb'
        apply h
        simp [Piece.bytes, hb']
      obtain ⟨ps', hdrop, hle⟩ := ih ht
      exact ⟨ps', hdrop, Nat.le_succ_of_le hle⟩

/-- At most as many characters are read from the bytes of pieces as there are pieces. -/
theorem length_decodeLenient (ps : List Piece) :
    (Utf8.decodeLenient (ps.flatMap Piece.bytes)).length ≤ ps.length := by
  induction hn : ps.length using Nat.strongRecOn generalizing ps with
  | _ n ih =>
    rcases ps with _ | ⟨c | b, ps⟩
    · simp [Utf8.decodeLenient]
    · rw [List.length_cons] at hn
      obtain ⟨b, tail, he, hf⟩ := Utf8.first_encode c (ps.flatMap Piece.bytes)
      have hps := ih ps.length (by omega) ps rfl
      rw [List.flatMap_cons, Piece.bytes, he, List.cons_append, Utf8.decodeLenient, hf]
      simp only [List.drop_left, List.length_cons]
      omega
    · rw [List.length_cons] at hn
      obtain ⟨ps', hdrop, hle⟩ :=
        exists_drop_flatMap (Utf8.isTail_of_first b (ps.flatMap Piece.bytes))
      have hps := ih ps'.length (by omega) ps' rfl
      rw [List.flatMap_cons, Piece.bytes, List.singleton_append, Utf8.decodeLenient]
      simp only [hdrop, List.length_cons]
      omega

end Text.Percent

namespace Uri

/-- Whether a text has a percent sign that's followed by two hexadecimal digits. -/
def HasEscape (text : String) : Prop := Text.Percent.HasEscape text.toList

instance (text : String) : Decidable (HasEscape text) :=
  inferInstanceAs (Decidable (Text.Percent.HasEscape text.toList))

/-- Decoding a text never makes it longer, and makes it shorter if there is an escape. -/
theorem length_decode (text : String) : (decode text).toList.length ≤ text.toList.length ∧
    (HasEscape text → (decode text).toList.length < text.toList.length) := by
  obtain ⟨ps, hps⟩ := Text.Percent.exists_pieces text.toList
  have hle := Text.Percent.length_decodeLenient ps
  rw [decode, String.toList_ofList, hps.decode_encode]
  refine ⟨Nat.le_trans hle hps.length_le, fun he => Nat.lt_of_le_of_lt hle (hps.length_lt he)⟩

/-- Exactly the texts without escapes stand for themselves. -/
theorem decode_eq_self_iff (text : String) : decode text = text ↔ ¬HasEscape text := by
  constructor
  · intro hd he
    have hl := (length_decode text).2 he
    rw [hd] at hl
    exact Nat.lt_irrefl _ hl
  · intro he
    obtain ⟨ps, hps⟩ := Text.Percent.exists_pieces text.toList
    have hbytes : ps.flatMap Text.Percent.Piece.bytes = Text.Utf8.encode text.toList := by
      rw [hps.eq_map_char he, List.flatMap_map]
      rfl
    rw [decode, hps.decode_encode, hbytes, Text.Utf8.decodeLenient_encode, String.ofList_toList]

end Uri

end RequestRouting
