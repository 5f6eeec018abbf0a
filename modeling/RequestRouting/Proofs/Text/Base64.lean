import RequestRouting.Text.Base64
import RequestRouting.Text.Blank

/-!
# Reading Base64

Reading accepts exactly what writing produces, so bytes have one written form only. A group of four
digits is taken apart and put together by arithmetic on the values of the digits.
-/

namespace RequestRouting.Text.Base64

section Digits

variable {c : Char} {n : Nat}

theorem digit?_digit (h : n < 64) : digit? (digit n) = some n := by
  have hall : ∀ n : Fin 64, digit? (digit n) = some n.val := by decide
  exact hall ⟨n, h⟩

theorem digit_of_digit? (h : digit? c = some n) : n < 64 ∧ digit n = c := by
  have hc : Char.ofNat c.toNat = c := Char.ofNat_toNat c
  simp only [digit?, Bool.and_eq_true, decide_eq_true_eq] at h
  split at h
  · obtain rfl := Option.some.inj h
    refine ⟨by omega, ?_⟩
    rw [digit, if_pos (by omega), Nat.add_sub_cancel' (by omega), hc]
  split at h
  · obtain rfl := Option.some.inj h
    refine ⟨by omega, ?_⟩
    rw [digit, if_neg (by omega), if_pos (by omega), Nat.add_sub_cancel,
      Nat.add_sub_cancel' (by omega), hc]
  split at h
  · obtain rfl := Option.some.inj h
    refine ⟨by omega, ?_⟩
    rw [digit, if_neg (by omega), if_neg (by omega), if_pos (by omega), Nat.add_sub_cancel,
      Nat.add_sub_cancel' (by omega), hc]
  split at h
  · rename_i hplus
    obtain rfl := Option.some.inj h
    exact ⟨by decide, hplus.symm⟩
  split at h
  · rename_i hslash
    obtain rfl := Option.some.inj h
    exact ⟨by decide, hslash.symm⟩
  · cases h

/-- The padding isn't a digit. -/
theorem digit_ne_pad (h : n < 64) : digit n ≠ '=' := by
  intro he
  have hn := digit?_digit h
  rw [he] at hn
  cases hn

theorem isBlank_digit (h : n < 64) : isBlank (digit n) = false := by
  have hall : ∀ n : Fin 64, isBlank (digit n) = false := by decide
  exact hall ⟨n, h⟩

end Digits

/-- Bytes are written in digits and padding. -/
theorem of_mem_encode {bytes : List UInt8} {c : Char} (h : c ∈ encode bytes) :
    c = '=' ∨ ∃ n < 64, c = digit n := by
  induction bytes using encode.induct with
  | case1 => cases h
  | case2 a =>
    have ha := a.toNat_lt
    simp only [encode, List.mem_cons, List.not_mem_nil, or_false] at h
    rcases h with rfl | rfl | rfl | rfl
    · exact .inr ⟨_, by omega, rfl⟩
    · exact .inr ⟨_, by omega, rfl⟩
    · exact .inl rfl
    · exact .inl rfl
  | case3 a b =>
    have ha := a.toNat_lt
    have hb := b.toNat_lt
    simp only [encode, List.mem_cons, List.not_mem_nil, or_false] at h
    rcases h with rfl | rfl | rfl | rfl
    · exact .inr ⟨_, by omega, rfl⟩
    · exact .inr ⟨_, by omega, rfl⟩
    · exact .inr ⟨_, by omega, rfl⟩
    · exact .inl rfl
  | case4 a b c rest ih =>
    have ha := a.toNat_lt
    have hb := b.toNat_lt
    have hc := c.toNat_lt
    simp only [encode, List.mem_cons] at h
    rcases h with rfl | rfl | rfl | rfl | h
    · exact .inr ⟨_, by omega, rfl⟩
    · exact .inr ⟨_, by omega, rfl⟩
    · exact .inr ⟨_, by omega, rfl⟩
    · exact .inr ⟨_, by omega, rfl⟩
    · exact ih h

/-- Nothing that's written is blank. -/
theorem isBlank_of_mem_encode {bytes : List UInt8} {c : Char} (h : c ∈ encode bytes) :
    isBlank c = false := by
  rcases of_mem_encode h with rfl | ⟨n, hn, rfl⟩
  · decide
  · exact isBlank_digit hn

section Groups

variable {c d e f : Nat}

/-- A full group of digits is read by itself. -/
theorem decode?_cons (hc : c < 64) (hd : d < 64) (he : e < 64) (hf : f < 64) (rest : List Char) :
    decode? (digit c :: digit d :: digit e :: digit f :: rest) = (decode? rest).map fun bytes =>
      .ofNat (c * 4 + d / 16) :: .ofNat (d % 16 * 16 + e / 4) :: .ofNat (e % 4 * 64 + f) ::
        bytes := by
  have hpad := digit_ne_pad hf
  rw [decode?]
  · rw [digit?_digit hc, digit?_digit hd, digit?_digit he, digit?_digit hf]
    cases decode? rest <;> rfl
  · exact fun _ h _ => hpad h
  · exact fun h _ => hpad h

theorem decode?_two (hc : c < 64) (hd : d < 64) (he : e < 64) :
    decode? [digit c, digit d, digit e, '='] = if e % 4 = 0 then
      some [.ofNat (c * 4 + d / 16), .ofNat (d % 16 * 16 + e / 4)] else none := by
  rw [decode?]
  · rw [digit?_digit hc, digit?_digit hd, digit?_digit he]
    rfl
  · exact digit_ne_pad he

theorem decode?_one (hc : c < 64) (hd : d < 64) : decode? [digit c, digit d, '=', '='] =
    if d % 16 = 0 then some [.ofNat (c * 4 + d / 16)] else none := by
  rw [decode?, digit?_digit hc, digit?_digit hd]
  rfl

end Groups

/-- What was written is read. -/
theorem decode?_encode (bytes : List UInt8) : decode? (encode bytes) = some bytes := by
  induction bytes using encode.induct with
  | case1 => rfl
  | case2 a =>
    have ha := a.toNat_lt
    rw [encode, decode?_one (by omega) (by omega), if_pos (by omega)]
    have hbyte : a.toNat / 4 * 4 + a.toNat % 4 * 16 / 16 = a.toNat := by omega
    rw [hbyte, UInt8.ofNat_toNat]
  | case3 a b =>
    have ha := a.toNat_lt
    have hb := b.toNat_lt
    rw [encode, decode?_two (by omega) (by omega) (by omega), if_pos (by omega)]
    have hfirst : a.toNat / 4 * 4 + (a.toNat % 4 * 16 + b.toNat / 16) / 16 = a.toNat := by omega
    have hsecond : (a.toNat % 4 * 16 + b.toNat / 16) % 16 * 16 + b.toNat % 16 * 4 / 4 = b.toNat := by
      omega
    rw [hfirst, hsecond, UInt8.ofNat_toNat, UInt8.ofNat_toNat]
  | case4 a b c rest ih =>
    have ha := a.toNat_lt
    have hb := b.toNat_lt
    have hc := c.toNat_lt
    rw [encode, decode?_cons (by omega) (by omega) (by omega) (by omega), ih]
    have hfirst : a.toNat / 4 * 4 + (a.toNat % 4 * 16 + b.toNat / 16) / 16 = a.toNat := by omega
    have hsecond : (a.toNat % 4 * 16 + b.toNat / 16) % 16 * 16 +
        (b.toNat % 16 * 4 + c.toNat / 64) / 4 = b.toNat := by omega
    have hthird : (b.toNat % 16 * 4 + c.toNat / 64) % 4 * 64 + c.toNat % 64 = c.toNat := by omega
    rw [hfirst, hsecond, hthird, UInt8.ofNat_toNat, UInt8.ofNat_toNat, UInt8.ofNat_toNat]
    rfl

/-- What is read was written. -/
theorem encode_of_decode? {s : List Char} {bytes : List UInt8} (h : decode? s = some bytes) :
    encode bytes = s := by
  have hbyte {n : Nat} (hn : n < 256) : (UInt8.ofNat n).toNat = n := UInt8.toNat_ofNat_of_lt' hn
  induction s using decode?.induct generalizing bytes with
  | case1 =>
    obtain rfl := Option.some.inj h
    rfl
  | case2 c d =>
    simp only [decode?, Option.bind_eq_bind, Option.bind_eq_some_iff] at h
    obtain ⟨c, hc, d, hd, h⟩ := h
    obtain ⟨hc, rfl⟩ := digit_of_digit? hc
    obtain ⟨hd, rfl⟩ := digit_of_digit? hd
    obtain ⟨hzero, hbytes⟩ := Option.ite_none_right_eq_some.mp h
    obtain rfl := Option.some.inj hbytes
    have hfirst : (c * 4 + d / 16) / 4 = c := by omega
    have hsecond : (c * 4 + d / 16) % 4 * 16 = d := by omega
    rw [encode, hbyte (by omega), hfirst, hsecond]
  | case3 c d e hpad =>
    rw [decode?.eq_3 _ _ _ hpad] at h
    simp only [Option.bind_eq_bind, Option.bind_eq_some_iff] at h
    obtain ⟨c, hc, d, hd, e, he, h⟩ := h
    obtain ⟨hc, rfl⟩ := digit_of_digit? hc
    obtain ⟨hd, rfl⟩ := digit_of_digit? hd
    obtain ⟨he, rfl⟩ := digit_of_digit? he
    obtain ⟨hzero, hbytes⟩ := Option.ite_none_right_eq_some.mp h
    obtain rfl := Option.some.inj hbytes
    have hfirst : (c * 4 + d / 16) / 4 = c := by omega
    have hsecond : (c * 4 + d / 16) % 4 * 16 + (d % 16 * 16 + e / 4) / 16 = d := by omega
    have hthird : (d % 16 * 16 + e / 4) % 16 * 4 = e := by omega
    rw [encode, hbyte (by omega), hbyte (by omega), hfirst, hsecond, hthird]
  | case4 c d e f rest h₁ h₂ ih =>
    rw [decode?.eq_4 _ _ _ _ _ h₁ h₂] at h
    simp only [Option.bind_eq_bind, Option.bind_eq_some_iff] at h
    obtain ⟨c, hc, d, hd, e, he, f, hf, more, hmore, hbytes⟩ := h
    obtain ⟨hc, rfl⟩ := digit_of_digit? hc
    obtain ⟨hd, rfl⟩ := digit_of_digit? hd
    obtain ⟨he, rfl⟩ := digit_of_digit? he
    obtain ⟨hf, rfl⟩ := digit_of_digit? hf
    obtain rfl := Option.some.inj hbytes
    have hfirst : (c * 4 + d / 16) / 4 = c := by omega
    have hsecond : (c * 4 + d / 16) % 4 * 16 + (d % 16 * 16 + e / 4) / 16 = d := by omega
    have hthird : (d % 16 * 16 + e / 4) % 16 * 4 + (e % 4 * 64 + f) / 64 = e := by omega
    have hfourth : (e % 4 * 64 + f) % 64 = f := by omega
    rw [encode, hbyte (by omega), hbyte (by omega), hbyte (by omega), hfirst, hsecond, hthird,
      hfourth, ih hmore]
  | case5 s h₁ h₂ h₃ h₄ =>
    rw [decode?.eq_5 _ h₁ h₂ h₃ h₄] at h
    cases h

/-- Exactly what writing produces is read. -/
theorem decode?_eq_some_iff {s : List Char} {bytes : List UInt8} :
    decode? s = some bytes ↔ encode bytes = s :=
  ⟨encode_of_decode?, fun h => h ▸ decode?_encode bytes⟩

end RequestRouting.Text.Base64
