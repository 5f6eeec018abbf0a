import RequestRouting.Text.Utf8

/-!
# Reading what was encoded

Reading the bytes of a text yields the text, strictly as well as leniently, and nothing but the bytes
of a text is read strictly. The encoding of a character is taken apart by its length, where the first
byte tells how many bytes follow.
-/

namespace RequestRouting.Text.Utf8

variable {b : Nat}

theorem lead?_two (h : 0xC2 ≤ b) (h' : b ≤ 0xDF) : lead? b = some (1, 0x80, 0xBF) := by
  simp [lead?, h, h']

theorem lead?_three (h : 0xE0 ≤ b) (h' : b ≤ 0xEF) : lead? b =
    some (2, if b = 0xE0 then 0xA0 else 0x80, if b = 0xED then 0x9F else 0xBF) := by
  have hn : ¬b ≤ 0xDF := by omega
  by_cases h₁ : b = 0xE0
  · simp [lead?, h₁]
  · by_cases h₂ : b = 0xED
    · simp [lead?, h₂]
    · have hl : 0xE1 ≤ b := by omega
      simp [lead?, h₁, h₂, hn, hl, h']

theorem lead?_four (h : 0xF0 ≤ b) (h' : b ≤ 0xF4) : lead? b =
    some (3, if b = 0xF0 then 0x90 else 0x80, if b = 0xF4 then 0x8F else 0xBF) := by
  obtain rfl | rfl | rfl | rfl | rfl : b = 0xF0 ∨ b = 0xF1 ∨ b = 0xF2 ∨ b = 0xF3 ∨ b = 0xF4 := by
    omega
  all_goals rfl

theorem tail?_cons {n low high value : Nat} {b : UInt8} {rest : List UInt8} (h : low ≤ b.toNat)
    (h' : b.toNat ≤ high) : tail? (n + 1) low high value (b :: rest) =
      tail? n 0x80 0xBF (value * 64 + b.toNat % 64) rest := by
  simp [tail?, h, h']

theorem toNat_byte {n : Nat} (h : n < 256) : (UInt8.ofNat n).toNat = n := by
  rw [UInt8.toNat_ofNat', Nat.mod_eq_of_lt h]

theorem first_of_lead? {b : UInt8} {rest : List UInt8} {n low high : Nat} (value : Nat)
    (hb : 0x80 ≤ b.toNat) (hl : lead? b.toNat = some (n, low, high))
    (ht : tail? n low high (b.toNat % Nat.pow 2 (6 - n)) rest = some value) :
    first b rest = (some (.ofNat value), n) := by
  simp only [first, Nat.not_lt.mpr hb, if_false, hl, ht]

/-- A character is read from its encoding, whatever follows. -/
theorem first_encode (c : Char) (rest : List UInt8) : ∃ b tail,
    String.utf8EncodeChar c = b :: tail ∧ first b (tail ++ rest) = (some c, tail.length) := by
  have hv := c.valid
  have hc : Char.ofNat c.val.toNat = c := Char.ofNat_toNat c
  unfold UInt32.isValidChar Nat.isValidChar at hv
  unfold String.utf8EncodeChar
  generalize c.val.toNat = v at hv hc
  dsimp only
  have hlast : (UInt8.ofNat (v % 0x40 + 0x80)).toNat = v % 64 + 0x80 := toNat_byte (by omega)
  have hsecond : (UInt8.ofNat (v / 64 % 0x40 + 0x80)).toNat = v / 64 % 64 + 0x80 :=
    toNat_byte (by omega)
  have hthird : (UInt8.ofNat (v / 4096 % 0x40 + 0x80)).toNat = v / 4096 % 64 + 0x80 :=
    toNat_byte (by omega)
  split
  · refine ⟨_, [], rfl, ?_⟩
    have hb : (UInt8.ofNat v).toNat = v := toNat_byte (by omega)
    have hlt : v < 0x80 := by omega
    simp [first, hb, hlt, hc]
  split
  · refine ⟨_, [_], rfl, ?_⟩
    have hb : (UInt8.ofNat (v / 64 % 0x20 + 0xC0)).toNat = v / 64 + 0xC0 := by
      rw [toNat_byte (by omega)]
      omega
    rw [first_of_lead? v (by omega) (lead?_two (by omega) (by omega)), hc]
    · rfl
    · rw [List.cons_append, tail?_cons (by omega) (by omega), hb, hlast, tail?]
      have hp : Nat.pow 2 (6 - 1) = 32 := rfl
      simp only [hp, Option.some.injEq]
      omega
  split
  · refine ⟨_, [_, _], rfl, ?_⟩
    have hb : (UInt8.ofNat (v / 4096 % 0x10 + 0xE0)).toNat = v / 4096 + 0xE0 := by
      rw [toNat_byte (by omega)]
      omega
    rw [first_of_lead? v (by omega) (lead?_three (by omega) (by omega)), hc]
    · rfl
    · rw [List.cons_append, List.cons_append, tail?_cons (by split <;> omega) (by split <;> omega),
        tail?_cons (by omega) (by omega), hb, hsecond, hlast, tail?]
      have hp : Nat.pow 2 (6 - 2) = 16 := rfl
      simp only [hp, Option.some.injEq]
      omega
  · refine ⟨_, [_, _, _], rfl, ?_⟩
    have hb : (UInt8.ofNat (v / 262144 % 0x08 + 0xF0)).toNat = v / 262144 + 0xF0 := by
      rw [toNat_byte (by omega)]
      omega
    rw [first_of_lead? v (by omega) (lead?_four (by omega) (by omega)), hc]
    · rfl
    · rw [List.cons_append, List.cons_append, List.cons_append,
        tail?_cons (by split <;> omega) (by split <;> omega), tail?_cons (by omega) (by omega),
        tail?_cons (by omega) (by omega), hb, hthird, hsecond, hlast, tail?]
      have hp : Nat.pow 2 (6 - 3) = 8 := rfl
      simp only [hp, Option.some.injEq]
      omega

/-- Reading the bytes of a text leniently yields the text. -/
theorem decodeLenient_encode (s : List Char) : decodeLenient (encode s) = s := by
  induction s with
  | nil => rw [encode, List.flatMap_nil, decodeLenient]
  | cons c s ih =>
    obtain ⟨b, tail, he, hf⟩ := first_encode c (encode s)
    have hs : encode (c :: s) = b :: (tail ++ encode s) := by
      rw [encode, List.flatMap_cons, he]
      rfl
    rw [hs, decodeLenient, hf]
    simp [ih]

/-- An ASCII byte only occurs in the encoding of its character. -/
theorem eq_of_mem_encodeChar {b : UInt8} {c : Char} (hb : b.toNat < 0x80)
    (h : b ∈ String.utf8EncodeChar c) : c = .ofNat b.toNat := by
  rw [← Char.ofNat_toNat c]
  change Char.ofNat c.val.toNat = _
  unfold String.utf8EncodeChar at h
  generalize c.val.toNat = v at h ⊢
  dsimp only at h
  have hlow : ∀ {n k : Nat}, 0x80 ≤ n → n + k < 256 → b ≠ UInt8.ofNat (k + n) := by
    rintro n k hn hk rfl
    rw [toNat_byte (by omega)] at hb
    omega
  split at h
  · rw [List.mem_singleton.mp h, toNat_byte (by omega)]
  split at h
  · simp only [List.mem_cons, List.not_mem_nil, or_false] at h
    rcases h with h | h <;> exact absurd h (hlow (by omega) (by omega))
  split at h
  · simp only [List.mem_cons, List.not_mem_nil, or_false] at h
    rcases h with h | h | h <;> exact absurd h (hlow (by omega) (by omega))
  · simp only [List.mem_cons, List.not_mem_nil, or_false] at h
    rcases h with h | h | h | h <;> exact absurd h (hlow (by omega) (by omega))

/-- Reading the bytes of a text strictly yields the text. -/
theorem decode?_encode (s : List Char) : decode? (encode s) = some s := by
  induction s with
  | nil => rw [encode, List.flatMap_nil, decode?]
  | cons c s ih =>
    obtain ⟨b, tail, he, hf⟩ := first_encode c (encode s)
    have hs : encode (c :: s) = b :: (tail ++ encode s) := by
      rw [encode, List.flatMap_cons, he]
      rfl
    rw [hs, decode?, hf]
    simp [ih]

/-! Bytes are only read as the text whose encoding they are. -/

section Reading

variable {b : UInt8} {rest : List UInt8} {v n : Nat}

/-- The ranges of the first two bytes of a sequence. They keep the value of a sequence within the
characters, and from being written with fewer bytes. -/
theorem of_lead? {b low high : Nat} (h : lead? b = some (n, low, high)) :
    n = 1 ∧ 0xC2 ≤ b ∧ b ≤ 0xDF ∧ 0x80 ≤ low ∧ high ≤ 0xBF ∨
      n = 2 ∧ 0xE0 ≤ b ∧ b ≤ 0xEF ∧ 0x80 ≤ low ∧ high ≤ 0xBF ∧
        (b = 0xE0 → 0xA0 ≤ low) ∧ (b = 0xED → high ≤ 0x9F) ∨
      n = 3 ∧ 0xF0 ≤ b ∧ b ≤ 0xF4 ∧ 0x80 ≤ low ∧ high ≤ 0xBF ∧
        (b = 0xF0 → 0x90 ≤ low) ∧ (b = 0xF4 → high ≤ 0x8F) := by
  simp only [lead?, Bool.and_eq_true, decide_eq_true_eq] at h
  repeat' split at h
  all_goals simp only [Option.some.injEq, Prod.mk.injEq, reduceCtorEq] at h
  all_goals omega

theorem of_tail? {low high value : Nat} (h : tail? (n + 1) low high value rest = some v) :
    ∃ c more, rest = c :: more ∧ low ≤ c.toNat ∧ c.toNat ≤ high ∧
      tail? n 0x80 0xBF (value * 64 + c.toNat % 64) more = some v := by
  cases rest with
  | nil => cases h
  | cons c more =>
    simp only [tail?, Bool.and_eq_true, decide_eq_true_eq, Option.ite_none_right_eq_some] at h
    exact ⟨c, more, rfl, h.1.1, h.1.2, h.2⟩

theorem toNat_of_isValidChar (h : v.isValidChar) : (Char.ofNat v).toNat = v := by
  rw [Char.ofNat, dif_pos h]
  rfl

theorem ofNat_eq (h : n = b.toNat) : UInt8.ofNat n = b := by rw [h, UInt8.ofNat_toNat]

theorem encodeChar_one (h : v < 0x80) (hb : v = b.toNat) :
    String.utf8EncodeChar (.ofNat v) = [b] := by
  unfold String.utf8EncodeChar
  have hv : (Char.ofNat v).val.toNat = v := toNat_of_isValidChar (Or.inl (by omega))
  rw [hv]
  dsimp only
  rw [if_pos (by omega), ofNat_eq hb]

theorem encodeChar_two {x : UInt8} (h : 0x80 ≤ v ∧ v < 0x800) (hb : v / 64 + 0xC0 = b.toNat)
    (hx : v % 64 + 0x80 = x.toNat) : String.utf8EncodeChar (.ofNat v) = [b, x] := by
  unfold String.utf8EncodeChar
  have hv : (Char.ofNat v).val.toNat = v := toNat_of_isValidChar (Or.inl (by omega))
  rw [hv]
  dsimp only
  rw [if_neg (by omega), if_pos (by omega), Nat.mod_eq_of_lt (by omega), ofNat_eq hb, ofNat_eq hx]

theorem encodeChar_three {x y : UInt8} (h : 0x800 ≤ v ∧ v < 0x10000) (hv : v.isValidChar)
    (hb : v / 4096 + 0xE0 = b.toNat) (hx : v / 64 % 64 + 0x80 = x.toNat)
    (hy : v % 64 + 0x80 = y.toNat) : String.utf8EncodeChar (.ofNat v) = [b, x, y] := by
  unfold String.utf8EncodeChar
  have hv : (Char.ofNat v).val.toNat = v := toNat_of_isValidChar hv
  rw [hv]
  dsimp only
  rw [if_neg (by omega), if_neg (by omega), if_pos (by omega), Nat.mod_eq_of_lt (by omega),
    ofNat_eq hb, ofNat_eq hx, ofNat_eq hy]

theorem encodeChar_four {x y z : UInt8} (h : 0x10000 ≤ v ∧ v < 0x110000)
    (hb : v / 262144 + 0xF0 = b.toNat) (hx : v / 4096 % 64 + 0x80 = x.toNat)
    (hy : v / 64 % 64 + 0x80 = y.toNat) (hz : v % 64 + 0x80 = z.toNat) :
    String.utf8EncodeChar (.ofNat v) = [b, x, y, z] := by
  unfold String.utf8EncodeChar
  have hv : (Char.ofNat v).val.toNat = v := toNat_of_isValidChar (Or.inr (by omega))
  rw [hv]
  dsimp only
  rw [if_neg (by omega), if_neg (by omega), if_neg (by omega), Nat.mod_eq_of_lt (by omega),
    ofNat_eq hb, ofNat_eq hx, ofNat_eq hy, ofNat_eq hz]

/-- A character is only read from its encoding. -/
theorem encodeChar_of_first {c : Char} (h : first b rest = (some c, n)) :
    ∃ tail more, rest = tail ++ more ∧ tail.length = n ∧ String.utf8EncodeChar c = b :: tail := by
  unfold first at h
  split at h
  · rename_i hb
    obtain ⟨rfl, rfl⟩ : Char.ofNat b.toNat = c ∧ 0 = n := by simpa using h
    exact ⟨[], rest, rfl, rfl, encodeChar_one hb rfl⟩
  split at h
  · cases h
  rename_i k low high hlead
  split at h
  · rename_i v htail
    obtain ⟨rfl, rfl⟩ : Char.ofNat v = c ∧ k = n := by simpa using h
    have hp : Nat.pow 2 (6 - 1) = 32 ∧ Nat.pow 2 (6 - 2) = 16 ∧ Nat.pow 2 (6 - 3) = 8 :=
      ⟨rfl, rfl, rfl⟩
    rcases of_lead? hlead with ⟨rfl, hb⟩ | ⟨rfl, hb⟩ | ⟨rfl, hb⟩
    · obtain ⟨x, more, rfl, hx, hx', hv⟩ := of_tail? htail
      rw [hp.1] at hv
      obtain rfl := Option.some.inj hv
      exact ⟨[x], more, rfl, rfl, encodeChar_two (by omega) (by omega) (by omega)⟩
    · obtain ⟨x, more, rfl, hx, hx', hv⟩ := of_tail? htail
      obtain ⟨y, more, rfl, hy, hy', hv⟩ := of_tail? hv
      rw [hp.2.1] at hv
      obtain rfl := Option.some.inj hv
      refine ⟨[x, y], more, rfl, rfl,
        encodeChar_three (by omega) ?_ (by omega) (by omega) (by omega)⟩
      unfold Nat.isValidChar
      omega
    · obtain ⟨x, more, rfl, hx, hx', hv⟩ := of_tail? htail
      obtain ⟨y, more, rfl, hy, hy', hv⟩ := of_tail? hv
      obtain ⟨z, more, rfl, hz, hz', hv⟩ := of_tail? hv
      rw [hp.2.2] at hv
      obtain rfl := Option.some.inj hv
      exact ⟨[x, y, z], more, rfl, rfl,
        encodeChar_four (by omega) (by omega) (by omega) (by omega) (by omega)⟩
  · cases h

theorem encode_of_decode? {bytes : List UInt8} {s : List Char} (h : decode? bytes = some s) :
    encode s = bytes := by
  induction bytes using decode?.induct generalizing s with
  | case1 =>
    rw [decode?] at h
    obtain rfl := Option.some.inj h
    rfl
  | case2 b rest c n hfirst ih =>
    rw [decode?, hfirst] at h
    obtain ⟨s, hs, rfl⟩ := Option.map_eq_some_iff.mp h
    obtain ⟨tail, more, rfl, rfl, he⟩ := encodeChar_of_first hfirst
    rw [List.drop_left] at hs ih
    rw [encode, List.flatMap_cons, he, ← encode, ih hs, List.cons_append]
  | case3 b rest n hfirst =>
    rw [decode?, hfirst] at h
    cases h

/-- Exactly the encodings of texts are read strictly. -/
theorem decode?_eq_some_iff {bytes : List UInt8} {s : List Char} :
    decode? bytes = some s ↔ encode s = bytes :=
  ⟨encode_of_decode?, fun h => h ▸ decode?_encode s⟩

end Reading

end RequestRouting.Text.Utf8
