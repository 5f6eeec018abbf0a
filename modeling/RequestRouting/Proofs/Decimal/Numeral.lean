import Mathlib
import RequestRouting.Decimal.Weight

/-!
# Decimal numbers as they're written

A decimal number is written as digits with or without a point among them, which a sign may stand in
front of and an exponent behind. Reading a weight that is written as a decimal number tells whether
the number is above zero, except that a number of at most `2 ^ -150` is taken for zero.
-/

namespace RequestRouting.Decimal

/-- A sign, which may be left out. -/
inductive Sign where
  | absent
  | plus
  | minus
  deriving DecidableEq

namespace Sign

def text : Sign → List Char
  | absent => []
  | plus => ['+']
  | minus => ['-']

def isMinus : Sign → Bool
  | absent | plus => false
  | minus => true

def factor (sign : Sign) : ℤ := if sign.isMinus then -1 else 1

end Sign

/-- Digits as they're written. -/
def digitsText (digits : List (Fin 10)) : List Char := digits.map fun d : Fin 10 => Nat.digitChar d.val

/-- The number that digits stand for. -/
def digitsValue (digits : List (Fin 10)) : Nat := Nat.ofDigits 10 (digits.map Fin.val).reverse

/-- An exponent as it's written. -/
structure Exponent where
  mark : Char
  sign : Sign
  digits : List (Fin 10)
  isMark : mark = 'e' ∨ mark = 'E'
  ne_empty : digits ≠ []

namespace Exponent

def text (e : Exponent) : List Char := e.mark :: (e.sign.text ++ digitsText e.digits)

def value (e : Exponent) : ℤ := e.sign.factor * digitsValue e.digits

end Exponent

/-- A decimal number as it's written. The point and what's behind it may be left out, and so may the
exponent, but there must be a digit. -/
structure Numeral where
  sign : Sign := .absent
  whole : List (Fin 10)
  fraction : Option (List (Fin 10)) := none
  exponent : Option Exponent := none
  ne_empty : whole ++ fraction.getD [] ≠ []

namespace Numeral

variable (n : Numeral)

/-- All digits, in front of the point and behind it. -/
def digits : List (Fin 10) := n.whole ++ n.fraction.getD []

/-- The power of ten that the digits are multiplied by. -/
def scale : ℤ := n.exponent.elim 0 Exponent.value - (n.fraction.getD []).length

/-- What's behind the digits in front of the point. -/
def tail : List Char :=
  n.fraction.elim [] (fun digits => '.' :: digitsText digits) ++ n.exponent.elim [] Exponent.text

def text : List Char := n.sign.text ++ (digitsText n.whole ++ n.tail)

def value : ℚ := n.sign.factor * (digitsValue n.digits * 10 ^ n.scale)

end Numeral

/-- The greatest number that is taken for zero. -/
def negligible : ℚ := 1 / 2 ^ 150

/-! Digits are read as what they stand for. -/

theorem isDigit_digitChar (d : Fin 10) : (Nat.digitChar d).isDigit = true := by
  revert d
  decide

theorem toNat_digitChar (d : Fin 10) : (Nat.digitChar d).toNat - 0x30 = d := by
  revert d
  decide

theorem isDigit_of_mem {digits : List (Fin 10)} {c : Char} (h : c ∈ digitsText digits) :
    c.isDigit = true := by
  obtain ⟨d, -, rfl⟩ := List.mem_map.mp h
  exact isDigit_digitChar d

theorem natural_digitsText (digits : List (Fin 10)) :
    natural (digitsText digits) = digitsValue digits := by
  induction digits using List.reverseRecOn with
  | nil => rfl
  | append_singleton digits d ih =>
    have hd := toNat_digitChar d
    simp only [natural, digitsText, digitsValue] at ih ⊢
    simp [List.foldl_append, ih, hd, Nat.ofDigits_cons]
    omega

theorem takeWhile_digitsText (digits : List (Fin 10)) {rest : List Char}
    (h : ∀ c, rest.head? = some c → c.isDigit = false) :
    (digitsText digits ++ rest).takeWhile Char.isDigit = digitsText digits ∧
      (digitsText digits ++ rest).dropWhile Char.isDigit = rest := by
  have hd : ∀ c ∈ digitsText digits, c.isDigit = true := fun c hc => isDigit_of_mem hc
  rw [List.takeWhile_append_of_pos hd, List.dropWhile_append_of_pos hd]
  cases rest with
  | nil => simp
  | cons c rest => simp [h c rfl]

/-! Numerals are read as their digits and the power of ten. -/

theorem signed_append {s : List Char} (sign : Sign)
    (h : ∀ c, s.head? = some c → c ≠ '-' ∧ c ≠ '+') :
    signed (sign.text ++ s) = (sign.isMinus, s) := by
  cases sign with
  | plus => rfl
  | minus => rfl
  | absent =>
    cases s with
    | nil => rfl
    | cons c s =>
      obtain ⟨hm, hp⟩ := h c rfl
      simp [Sign.text, Sign.isMinus, signed, hm, hp]

theorem ne_sign_of_isDigit {c : Char} (h : c.isDigit = true) : c ≠ '-' ∧ c ≠ '+' := by
  constructor <;> rintro rfl <;> simp at h

namespace Exponent

theorem exponent?_text (e : Exponent) : exponent? e.text = some e.value := by
  have hd : digitsText e.digits ≠ [] := by simpa [digitsText] using e.ne_empty
  have hs : ∀ c, (digitsText e.digits).head? = some c → c ≠ '-' ∧ c ≠ '+' := fun c hc =>
    ne_sign_of_isDigit (isDigit_of_mem (List.mem_of_head? hc))
  have hall : (digitsText e.digits).all Char.isDigit = true :=
    List.all_eq_true.mpr fun c hc => isDigit_of_mem hc
  have hmark : (decide (e.mark = 'e') || decide (e.mark = 'E')) = true := by simpa using e.isMark
  simp only [text, exponent?, hmark, if_true, signed_append e.sign hs, hall, natural_digitsText,
    value, Sign.factor]
  cases e.sign.isMinus <;> simp [hd]

end Exponent

namespace Numeral

variable (n : Numeral)

theorem head?_exponent {o : Option Exponent} {c : Char}
    (h : (o.elim [] Exponent.text).head? = some c) : c = 'e' ∨ c = 'E' := by
  cases o with
  | none => simp at h
  | some e =>
    obtain rfl : e.mark = c := by simpa [Exponent.text] using h
    exact e.isMark

theorem exponent?_elim (o : Option Exponent) :
    exponent? (o.elim [] Exponent.text) = some (o.elim 0 Exponent.value) := by
  cases o with
  | none => rfl
  | some e => exact e.exponent?_text

/-- Digits with a point among them, and what follows them. -/
theorem number?_point {whole fraction : List (Fin 10)} {rest : List Char}
    (hne : whole ++ fraction ≠ []) (hrest : ∀ c, rest.head? = some c → c.isDigit = false) :
    number? (digitsText whole ++ '.' :: (digitsText fraction ++ rest)) = (exponent? rest).map
      fun e => .number (digitsValue (whole ++ fraction)) (e - fraction.length) := by
  have hpoint : ∀ c, ('.' :: (digitsText fraction ++ rest)).head? = some c →
      c.isDigit = false := by
    rintro c ⟨⟩
    rfl
  obtain ⟨hwhole, hdot⟩ := takeWhile_digitsText whole hpoint
  obtain ⟨hfraction, hlast⟩ := takeWhile_digitsText fraction hrest
  have hsome : ((digitsText whole).isEmpty && (digitsText fraction).isEmpty) = false := by
    cases whole <;> cases fraction <;> simp_all [digitsText]
  have hvalue := natural_digitsText (whole ++ fraction)
  have happend : digitsText (whole ++ fraction) = digitsText whole ++ digitsText fraction :=
    List.map_append
  simp [number?, hwhole, hdot, hfraction, hlast, hsome, ← happend, hvalue]
  simp [digitsText]

/-- Digits without a point, and what follows them. -/
theorem number?_whole {whole : List (Fin 10)} {rest : List Char} (hne : whole ≠ [])
    (hrest : ∀ c, rest.head? = some c → c.isDigit = false ∧ c ≠ '.') :
    number? (digitsText whole ++ rest) = (exponent? rest).map
      fun e => .number (digitsValue whole) e := by
  obtain ⟨hwhole, hlast⟩ := takeWhile_digitsText whole fun c hc => (hrest c hc).1
  have hsome : (digitsText whole).isEmpty = false := by
    cases whole <;> simp_all [digitsText]
  cases rest with
  | nil =>
    simp only [number?, hwhole, hlast, hsome]
    simp [natural_digitsText]
  | cons c rest =>
    have hc : c ≠ '.' := (hrest c rfl).2
    simp [number?, hwhole, hlast, hsome, natural_digitsText, hc]

theorem number?_text : number? (digitsText n.whole ++ n.tail) =
    some (.number (digitsValue n.digits) n.scale) := by
  have hdigit (c : Char) (h : (n.exponent.elim [] Exponent.text).head? = some c) :
      c.isDigit = false ∧ c ≠ '.' := by
    rcases head?_exponent h with rfl | rfl <;> decide
  have hne := n.ne_empty
  unfold tail digits scale
  cases hf : n.fraction with
  | none =>
    rw [hf, Option.getD_none, List.append_nil] at hne
    simp [number?_whole hne hdigit, exponent?_elim]
  | some fraction =>
    rw [hf, Option.getD_some] at hne
    simp [number?_point hne fun c hc => (hdigit c hc).1, exponent?_elim]

/-- A numeral starts with a digit or a point behind its sign. -/
theorem head?_digitsText {c : Char} (h : (digitsText n.whole ++ n.tail).head? = some c) :
    (∃ d : Fin 10, c = Nat.digitChar d.val) ∨ c = '.' := by
  cases hw : n.whole with
  | cons d whole =>
    rw [hw] at h
    exact Or.inl ⟨d, by simpa [digitsText] using h.symm⟩
  | nil =>
    cases hf : n.fraction with
    | none => exact absurd (by simp [hw, hf]) n.ne_empty
    | some fraction =>
      rw [hw, tail, hf] at h
      exact Or.inr (by simpa [digitsText] using h.symm)

/-- A numeral isn't one of the words that are read as a weight, as these start with a letter. -/
theorem magnitude?_text : magnitude? (digitsText n.whole ++ n.tail) =
    some (.number (digitsValue n.digits) n.scale) := by
  have hdigit : ∀ d : Fin 10, (Nat.digitChar d.val).toLower ≠ 'i' ∧
      (Nat.digitChar d.val).toLower ≠ 'n' := by decide
  have hword (word : String) (hw : word.toList.head? = some 'i' ∨ word.toList.head? = some 'n') :
      Text.lower (.ofList (digitsText n.whole ++ n.tail)) ≠ word := by
    rintro rfl
    rw [Text.lower, String.toList_ofList, String.toList_ofList, List.head?_map] at hw
    cases hc : (digitsText n.whole ++ n.tail).head? with
    | none => simp [hc] at hw
    | some c =>
      rw [hc] at hw
      rcases n.head?_digitsText hc with ⟨d, rfl⟩ | rfl
      · simp [hdigit d] at hw
      · exact absurd hw (by decide)
  have hinf := hword "inf" (by decide)
  have hinfinity := hword "infinity" (by decide)
  have hnan := hword "nan" (by decide)
  simp only [magnitude?, hinf, hinfinity, hnan, decide_false, Bool.or_self, Bool.false_eq_true,
    if_false, number?_text]

end Numeral

/-! The characters of numerals. -/

theorem Sign.text_subset (sign : Sign) : sign.text ⊆ ['+', '-'] := by
  cases sign <;> simp [text]

/-- A numeral is made of digits, and a few other characters. -/
theorem Numeral.mem_text (n : Numeral) {c : Char} (h : c ∈ n.text) :
    (∃ d : Fin 10, c = Nat.digitChar d.val) ∨ c ∈ ['+', '-', '.', 'e', 'E'] := by
  have hdigits {digits : List (Fin 10)} (hc : c ∈ digitsText digits) :
      ∃ d : Fin 10, c = Nat.digitChar d.val := by
    obtain ⟨d, -, rfl⟩ := List.mem_map.mp hc
    exact ⟨d, rfl⟩
  have hsign {sign : Sign} (hc : c ∈ sign.text) : c ∈ ['+', '-', '.', 'e', 'E'] := by
    have hc := sign.text_subset hc
    simp only [List.mem_cons] at hc ⊢
    tauto
  simp only [text, tail, List.mem_append] at h
  rcases h with h | h | h | h
  · exact Or.inr (hsign h)
  · exact Or.inl (hdigits h)
  · cases hf : n.fraction with
    | none => simp [hf] at h
    | some fraction =>
      rw [hf] at h
      rcases List.mem_cons.mp h with rfl | h
      · simp
      · exact Or.inl (hdigits h)
  · cases he : n.exponent with
    | none => simp [he] at h
    | some e =>
      rw [he] at h
      rcases List.mem_cons.mp h with rfl | h
      · rcases e.isMark with hm | hm <;> simp [hm]
      · rcases List.mem_append.mp h with h | h
        · exact Or.inr (hsign h)
        · exact Or.inl (hdigits h)

/-! Which numbers are taken for zero. -/

/-- A number is far below `2 ^ -150` if it has that many places more than digits. -/
theorem mul_le_of_length {digits places : Nat}
    (h : (Nat.toDigits 10 digits).length + 46 ≤ places) : digits * 2 ^ 150 ≤ 10 ^ places := by
  have hpos : 0 < (Nat.toDigits 10 digits).length := Nat.length_toDigits_pos
  have hlt : digits < 10 ^ (Nat.toDigits 10 digits).length :=
    (Nat.length_toDigits_le_iff (by decide) hpos).mp (Nat.le_refl _)
  calc digits * 2 ^ 150 ≤ 10 ^ (Nat.toDigits 10 digits).length * 10 ^ 46 :=
        Nat.mul_le_mul hlt.le (by norm_num)
    _ = 10 ^ ((Nat.toDigits 10 digits).length + 46) := (Nat.pow_add _ _ _).symm
    _ ≤ 10 ^ places := Nat.pow_le_pow_right (by decide) h

theorem isNegligible_iff (digits : Nat) (exponent : ℤ) :
    isNegligible digits exponent = true ↔ (digits : ℚ) * 10 ^ exponent ≤ negligible := by
  by_cases hzero : digits = 0
  · simp [isNegligible, hzero, negligible]
  · by_cases hexponent : 0 ≤ exponent
    · -- A number without places is at least one.
      have hdigits : (1 : ℚ) ≤ digits := by exact_mod_cast Nat.one_le_iff_ne_zero.mpr hzero
      have hpower : (1 : ℚ) ≤ 10 ^ exponent := one_le_zpow₀ (by norm_num) hexponent
      have hlarge : (1 : ℚ) ≤ digits * 10 ^ exponent := one_le_mul_of_one_le_of_one_le hdigits hpower
      have hsmall : negligible < 1 := by norm_num [negligible]
      rw [isNegligible, if_neg hzero, if_pos hexponent]
      exact iff_of_false Bool.false_ne_true (not_le.mpr (hsmall.trans_le hlarge))
    · obtain ⟨places, rfl⟩ : ∃ places : Nat, exponent = -places :=
        ⟨(-exponent).toNat, by omega⟩
      have hvalue : (digits : ℚ) * 10 ^ (-(places : ℤ)) = digits / 10 ^ places := by
        rw [zpow_neg, zpow_natCast, div_eq_mul_inv]
      have hiff : (digits : ℚ) / 10 ^ places ≤ negligible ↔ digits * 2 ^ 150 ≤ 10 ^ places := by
        rw [negligible, div_le_div_iff₀ (by positivity) (by positivity), one_mul]
        exact_mod_cast Iff.rfl
      rw [hvalue, hiff, isNegligible, if_neg hzero, if_neg hexponent]
      simp only [neg_neg, Int.toNat_natCast]
      split
      · simpa using mul_le_of_length ‹_›
      · simp

/-- A numeral is read as a weight that isn't above zero if its value isn't, or is too small. -/
theorem Numeral.isZeroOrLess_text (n : Numeral) :
    isZeroOrLess (.ofList n.text) = true ↔ n.value ≤ negligible := by
  have hsign (c : Char) (h : (digitsText n.whole ++ n.tail).head? = some c) : c ≠ '-' ∧ c ≠ '+' := by
    rcases n.head?_digitsText h with ⟨d, rfl⟩ | rfl
    · exact ne_sign_of_isDigit (isDigit_digitChar d)
    · decide
  have hread : isZeroOrLess (.ofList n.text) =
      (n.sign.isMinus || isNegligible (digitsValue n.digits) n.scale) := by
    simp only [isZeroOrLess, text, String.toList_ofList, signed_append n.sign hsign, magnitude?_text]
  have hnonneg : (0 : ℚ) ≤ digitsValue n.digits * 10 ^ n.scale := by positivity
  rw [hread, Bool.or_eq_true, isNegligible_iff, value, Sign.factor]
  cases n.sign.isMinus with
  | false => simp
  | true =>
    have hsmall : 0 ≤ negligible := by norm_num [negligible]
    have hle : (-1 : ℚ) * (digitsValue n.digits * 10 ^ n.scale) ≤ negligible := by linarith
    simpa using hle

end RequestRouting.Decimal
