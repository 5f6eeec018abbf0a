import Mathlib.Algebra.Group.Nat.Defs
import RequestRouting.Config.Settings
import RequestRouting.Proofs.Text.Cut
import RequestRouting.Proofs.Text.Letters

/-!
# How time spans and sizes are written

A time span or a size is a number in decimal digits with the name of a unit behind it, which there
may be blanks around. Nothing else is read, and neither is a number that doesn't fit into 64 bits,
in itself or multiplied by its unit.
-/

namespace RequestRouting

namespace Units

/-- The units of time by name, in milliseconds. -/
def timeUnits : List (String × Nat) :=
  [("ms", 1), ("s", 1000), ("m", 60 * 1000), ("h", 60 * 60 * 1000), ("d", 24 * 60 * 60 * 1000),
    ("w", 7 * 24 * 60 * 60 * 1000)]

/-- The units of size by name, in bytes. -/
def sizeUnits : List (String × Nat) := [("b", 1), ("kb", 1024), ("mb", 1024 ^ 2), ("gb", 1024 ^ 3)]

/-- Whether a text is a number of units: its decimal digits, and behind them the name of the unit
with blanks around it. -/
def Written (n : Nat) (unit text : String) : Prop :=
  ∃ digits lead tail : List Char, text.toList = digits ++ (lead ++ unit.toList ++ tail) ∧
    digits ≠ [] ∧ (∀ c ∈ digits, c.isDigit = true) ∧ n = Nat.ofDigitChars 10 digits 0 ∧
    (∀ c ∈ lead, Text.isBlank c = true) ∧ ∀ c ∈ tail, Text.isBlank c = true

/-- Whether a text is a number of units that fits into 64 bits, in itself as well as multiplied by
what the unit stands for. -/
def IsQuantity (units : String → Nat → Prop) (text : String) (x : Nat) : Prop :=
  ∃ n unit factor, Written n unit text ∧ units unit factor ∧
    n < 2 ^ 64 ∧ n * factor < 2 ^ 64 ∧ x = n * factor

/-- Whether a text is a time span of so many milliseconds. -/
def IsDuration : String → Nat → Prop := IsQuantity fun unit factor => (unit, factor) ∈ timeUnits

/-- Whether a text is a size of so many bytes. The name of the unit may have any letter case. -/
def IsSize : String → Nat → Prop :=
  IsQuantity fun unit factor => (Text.lower unit, factor) ∈ sizeUnits

/-- Whether a text is an age of so many whole seconds, or the word for ten years. -/
def IsMaxAge (text : String) (age : Int) : Prop :=
  text = "farFuture" ∧ age = 10 * 365 * 24 * 60 * 60 ∨
    ∃ ms, IsDuration text ms ∧ age * 1000 ≤ ms ∧ ms < (age + 1) * 1000

/-- Whether a name can't be taken for the digits in front of it, or for the blanks around it. -/
def IsName (unit : String) : Prop :=
  unit ≠ "" ∧ ∀ c ∈ unit.toList, c.isDigit = false ∧ Text.isBlank c = false

-- going through the characters of the name, rather than through all that there are
instance (unit : String) : Decidable (IsName unit) :=
  @instDecidableAnd _ _ inferInstance (List.decidableBAll _ _)

variable {text unit : String} {n factor : Nat}

theorem toNat_of_isDigit {c : Char} (h : c.isDigit = true) : 0x30 ≤ c.toNat ∧ c.toNat ≤ 0x39 := by
  simpa [Char.isDigit, UInt32.le_iff_toNat_le] using h

theorem isDigit_of_isBlank {c : Char} (h : Text.isBlank c = true) : c.isDigit = false := by
  rw [Bool.eq_false_iff]
  intro hd
  have hn := toNat_of_isDigit hd
  simp only [Text.isBlank, Bool.or_eq_true, Bool.and_eq_true, decide_eq_true_eq, beq_iff_eq] at h
  omega

theorem toLower_of_isDigit {c : Char} (h : c.isDigit = true) : c.toLower = c := by
  refine Text.toLower_eq_self ?_
  have hn : 0x30 ≤ c.toNat ∧ c.toNat ≤ 0x39 := toNat_of_isDigit h
  omega

theorem ofDigits_eq (digits : List Char) : ofDigits digits = Nat.ofDigitChars 10 digits 0 := by
  simp [ofDigits, Nat.ofDigitChars_eq_foldl, Nat.mul_comm]

theorem written_of_split? (h : split? text = some (n, unit)) :
    Written n unit text ∧ n < 2 ^ 64 := by
  rw [split?] at h
  simp only [Option.ite_none_left_eq_some, Option.ite_none_right_eq_some, Option.some.injEq,
    Prod.mk.injEq, Bool.or_eq_true, List.isEmpty_iff, not_or] at h
  obtain ⟨⟨hdigits, -⟩, hlt, rfl, rfl⟩ := h
  obtain ⟨lead, tail, hrest, hlead, htail⟩ :=
    Text.Chars.exists_trim Text.isBlank (text.toList.dropWhile Char.isDigit)
  refine ⟨⟨text.toList.takeWhile Char.isDigit, lead, tail, ?_, hdigits, ?_, ofDigits_eq _, hlead,
    htail⟩, hlt⟩
  · rw [String.toList_ofList, ← hrest, List.takeWhile_append_dropWhile]
  · exact fun c hc => List.all_eq_true.mp List.all_takeWhile c hc

theorem split?_of_written (hu : IsName unit) (h : Written n unit text) (hn : n < 2 ^ 64) :
    split? text = some (n, unit) := by
  obtain ⟨digits, lead, tail, htext, hne, hdigits, rfl, hlead, htail⟩ := h
  obtain ⟨hunit, hname⟩ := hu
  -- the digits end where the blanks or the name begin
  obtain ⟨c, more, hrest⟩ : ∃ c more, lead ++ unit.toList ++ tail = c :: more :=
    List.exists_cons_of_ne_nil (by simp [hunit])
  have hstop : c.isDigit = false := by
    have hmem : c ∈ lead ++ unit.toList ++ tail := hrest ▸ List.mem_cons_self
    simp only [List.mem_append] at hmem
    rcases hmem with (hm | hm) | hm
    · exact isDigit_of_isBlank (hlead c hm)
    · exact (hname c hm).1
    · exact isDigit_of_isBlank (htail c hm)
  have htake : text.toList.takeWhile Char.isDigit = digits := by
    rw [htext, hrest, List.takeWhile_append_of_pos hdigits,
      List.takeWhile_cons_of_neg (by simp [hstop]), List.append_nil]
  have hdrop : text.toList.dropWhile Char.isDigit = lead ++ unit.toList ++ tail := by
    rw [htext, hrest, List.dropWhile_append_of_pos hdigits,
      List.dropWhile_cons_of_neg (by simp [hstop])]
  have htrim : Text.Chars.trim Text.isBlank (lead ++ unit.toList ++ tail) = unit.toList := by
    rw [Text.Chars.trim_append_append hlead htail,
      Text.Chars.trim_eq_self_of_forall fun c hc => (hname c hc).2]
  have hsome : ¬(digits.isEmpty || (lead ++ unit.toList ++ tail).isEmpty) = true := by
    simp [hne, hunit]
  have hbound : Nat.ofDigitChars 10 digits 0 < bound := hn
  rw [split?]
  simp only [htake, hdrop, htrim, ofDigits_eq]
  rw [if_neg hsome, if_pos hbound, String.ofList_toList]

theorem scaled?_eq_some_iff {x : Nat} :
    scaled? n factor = some x ↔ n * factor < 2 ^ 64 ∧ x = n * factor := by
  rw [scaled?, Option.ite_none_right_eq_some, Option.some.injEq]
  exact and_congr_right' eq_comm

theorem milliseconds?_eq_some_iff :
    milliseconds? unit = some factor ↔ (unit, factor) ∈ timeUnits := by
  constructor
  · intro h
    simp only [milliseconds?] at h
    repeat' split at h
    all_goals simp_all [timeUnits]
  · intro h
    simp only [timeUnits, List.mem_cons, Prod.mk.injEq, List.not_mem_nil, or_false] at h
    rcases h with ⟨rfl, rfl⟩ | ⟨rfl, rfl⟩ | ⟨rfl, rfl⟩ | ⟨rfl, rfl⟩ | ⟨rfl, rfl⟩ | ⟨rfl, rfl⟩ <;> rfl

theorem bytes?_eq_some_iff :
    bytes? unit = some factor ↔ (Text.lower unit, factor) ∈ sizeUnits := by
  generalize hl : Text.lower unit = name
  simp only [bytes?, hl]
  constructor
  · intro h
    repeat' split at h
    all_goals simp_all [sizeUnits]
  · intro h
    simp only [sizeUnits, List.mem_cons, Prod.mk.injEq, List.not_mem_nil, or_false] at h
    rcases h with ⟨rfl, rfl⟩ | ⟨rfl, rfl⟩ | ⟨rfl, rfl⟩ | ⟨rfl, rfl⟩ <;> rfl

theorem isName_of_mem_timeUnits (h : (unit, factor) ∈ timeUnits) : IsName unit := by
  have hall : ∀ u ∈ timeUnits, IsName u.1 := by decide
  exact hall _ h

/-- Names of units of size are names in any letter case. -/
theorem isName_of_mem_sizeUnits (h : (Text.lower unit, factor) ∈ sizeUnits) : IsName unit := by
  have hall : ∀ u ∈ sizeUnits, IsName u.1 := by decide
  obtain ⟨hne, hname⟩ := hall _ h
  refine ⟨?_, fun c hc => ?_⟩
  · rintro rfl
    exact hne rfl
  · have hmem : c.toLower ∈ (Text.lower unit).toList := by
      rw [Text.lower, String.toList_ofList]
      exact List.mem_map_of_mem hc
    obtain ⟨hdigit, hblank⟩ := hname _ hmem
    constructor
    · cases hd : c.isDigit with
      | false => rfl
      | true => rw [toLower_of_isDigit hd, hd] at hdigit; cases hdigit
    · cases hb : Text.isBlank c with
      | false => rfl
      | true => rw [Text.toLower_of_isBlank hb, hb] at hblank; cases hblank

/-- What is read are the quantities in the units that there are names for. -/
theorem quantity_eq_some_iff {unit? : String → Option Nat} {units : String → Nat → Prop}
    (hiff : ∀ {unit factor}, unit? unit = some factor ↔ units unit factor)
    (hname : ∀ {unit factor}, units unit factor → IsName unit) {x : Nat} :
    (do let (n, unit) ← split? text; scaled? n (← unit? unit)) = some x ↔
      IsQuantity units text x := by
  constructor
  · intro h
    obtain ⟨⟨n, unit⟩, hs, h⟩ := Option.bind_eq_some_iff.mp h
    obtain ⟨factor, hf, h⟩ := Option.bind_eq_some_iff.mp h
    obtain ⟨hw, hn⟩ := written_of_split? hs
    obtain ⟨hlt, hx⟩ := scaled?_eq_some_iff.mp h
    exact ⟨n, unit, factor, hw, hiff.mp hf, hn, hlt, hx⟩
  · rintro ⟨n, unit, factor, hw, hu, hn, hlt, hx⟩
    refine Option.bind_eq_some_iff.mpr ⟨(n, unit), split?_of_written (hname hu) hw hn, ?_⟩
    exact Option.bind_eq_some_iff.mpr ⟨factor, hiff.mpr hu, scaled?_eq_some_iff.mpr ⟨hlt, hx⟩⟩

theorem duration?_eq_some_iff {ms : Nat} : duration? text = some ms ↔ IsDuration text ms :=
  quantity_eq_some_iff milliseconds?_eq_some_iff isName_of_mem_timeUnits

theorem size?_eq_some_iff {bytes : Nat} : size? text = some bytes ↔ IsSize text bytes :=
  quantity_eq_some_iff bytes?_eq_some_iff isName_of_mem_sizeUnits

theorem parse?_eq_some_iff {age : Int} : MaxAge.parse? text = some age ↔ IsMaxAge text age := by
  have hfloor (ms : Nat) : ((ms / 1000 : Nat) : Int) = age ↔
      age * 1000 ≤ ms ∧ ms < (age + 1) * 1000 := by
    constructor <;> intro h <;> omega
  rw [MaxAge.parse?, IsMaxAge]
  by_cases hword : text = "farFuture"
  · subst hword
    have hunread : duration? "farFuture" = none := rfl
    have hnone (ms : Nat) : ¬IsDuration "farFuture" ms := by
      rw [← duration?_eq_some_iff, hunread]
      exact nofun
    simp [hnone, MaxAge.farFuture, eq_comm]
  · simp only [hword, if_false, false_and, false_or, Option.map_eq_some_iff, duration?_eq_some_iff,
      hfloor]

/-- Text in JSON is read without the blanks around it. -/
theorem quantity_str_eq_ok_iff {α : Type} {expected : String} {ofNumber : Int → Option α}
    {ofText : String → Option α} {x : α} :
    Json.Decoder.quantity expected ofNumber ofText (.str text) = .ok x ↔
      ofText (Text.trim Text.isBlank text) = some x := by
  rw [Json.Decoder.quantity]
  cases ofText (Text.trim Text.isBlank text) with
  | none => exact iff_of_false nofun nofun
  | some y => simp

/-- A text is read as a time span, a size or an age if and only if it's one, with the value that it
stands for, and a text in JSON as the age that it is without the blanks around it. -/
theorem quantities_exact (text : String) :
    (∀ ms, duration? text = some ms ↔ IsDuration text ms) ∧
    (∀ bytes, size? text = some bytes ↔ IsSize text bytes) ∧
    (∀ age, MaxAge.parse? text = some age ↔ IsMaxAge text age) ∧
    ∀ age, Json.Decoder.maxAge (.str text) = .ok age ↔
      IsMaxAge (Text.trim Text.isBlank text) age :=
  ⟨fun _ => duration?_eq_some_iff, fun _ => size?_eq_some_iff, fun _ => parse?_eq_some_iff,
    fun _ => quantity_str_eq_ok_iff.trans parse?_eq_some_iff⟩

end Units

end RequestRouting
