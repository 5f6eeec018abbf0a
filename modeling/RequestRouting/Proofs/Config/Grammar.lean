import RequestRouting.Config.Descriptor
import RequestRouting.Proofs.Text.Cut

/-!
# The grammar of shorthands

Shorthands are told apart by their first character, and what follows it has to be what the character
asks for. The grammar is written down here as the ways to write each of them. A text is read as the
one shorthand it's written for, except that numbers may have a plus sign.
-/

namespace RequestRouting

namespace Shorthand

/-- Whether a text is a number that a status may have, written in decimal digits. -/
structure IsNumber (n : Nat) (digits : List Char) : Prop where
  ne_nil : digits ≠ []
  isDigit : ∀ c ∈ digits, c.isDigit = true
  value : n = Nat.ofDigitChars 10 digits 0
  le : n ≤ 65535

/-- The first characters of shorthands other than types and the word for a hidden route. -/
def marks : List Char := ['!', '/', '>', '@', '$']

/-- The ways to write a shorthand. -/
inductive Written : Shorthand → String → Prop where
  | word : Written .hidden "hidden"
  | mark : Written .hidden "!"
  | status {n : Nat} {digits : List Char} (h : IsNumber n digits) :
      Written (.status n) ("!" ++ .ofList digits)
  | captureHiding {uri : String} (h : (uri ++ "!").toList.head? = some '/') :
      Written (.capture uri true) (uri ++ "!")
  | capture {uri : String} (h : uri.toList.head? = some '/') (hn : ∀ before, uri ≠ before ++ "!") :
      Written (.capture uri false) uri
  | redirect {uri : String} (h : uri ≠ "") : Written (.redirect uri) (">" ++ uri)
  | dispatch {id : String} (h : id ≠ "") (hc : ':' ∉ id.toList) :
      Written (.dispatch none id) ("@" ++ id)
  | dispatchTo {dispatcher id : String} (hd : dispatcher ≠ "") (hc : ':' ∉ dispatcher.toList)
      (h : id ≠ "") : Written (.dispatch (some dispatcher) id) ("@" ++ dispatcher ++ ":" ++ id)
  | resource {name : String} (h : name ≠ "") : Written (.resource name) ("$" ++ name)
  | type {name : String} (h : name ≠ "") (hw : name ≠ "hidden")
      (hm : ∀ c, name.toList.head? = some c → c ∉ marks) : Written (.type name) name

/-- Whether a text is a status whose number has a plus sign in front of it. -/
def Signed (s : Shorthand) (text : String) : Prop :=
  ∃ n digits, IsNumber n digits ∧ s = .status n ∧ text = "!+" ++ .ofList digits

variable {text : String} {s : Shorthand} {rest : List Char} {n : Nat}

theorem eq_of_toList {mark : Char} (h : text.toList = mark :: rest) :
    text = .ofList [mark] ++ .ofList rest := String.ext (by simp [h])

/-- Where something has to follow the mark, it does. -/
theorem of_rest {s' : Shorthand} (h : (if rest.isEmpty = true then none else some s') = some s) :
    String.ofList rest ≠ "" ∧ s' = s := by
  rw [Option.ite_none_left_eq_some, List.isEmpty_iff] at h
  exact ⟨mt String.ofList_eq_empty_iff.mp h.1, Option.some.inj h.2⟩

/-- What follows a plus sign, or the whole text, is read as the number it writes. -/
theorem digits_eq_some_iff {digits : List Char} :
    (if (digits.isEmpty || !digits.all Char.isDigit) = true then none
      else if digits.foldl (fun n c => n * 10 + (c.toNat - 0x30)) 0 < 65536 then
        some (digits.foldl (fun n c => n * 10 + (c.toNat - 0x30)) 0)
      else none) = some n ↔ IsNumber n digits := by
  have hvalue : digits.foldl (fun n c => n * 10 + (c.toNat - 0x30)) 0 =
      Nat.ofDigitChars 10 digits 0 := by
    simp [Nat.ofDigitChars_eq_foldl, Nat.mul_comm]
  rw [hvalue]
  by_cases hn : digits = []
  · exact iff_of_false (by simp [hn]) fun h => h.ne_nil hn
  by_cases hd : ∀ c ∈ digits, c.isDigit = true
  · have hall : digits.all Char.isDigit = true := List.all_eq_true.mpr hd
    simp only [hall, List.isEmpty_eq_false_iff.mpr hn, Bool.not_true, Bool.or_self,
      Bool.false_eq_true, if_false, Option.ite_none_right_eq_some, Option.some.injEq]
    exact ⟨fun ⟨hlt, he⟩ => ⟨hn, hd, he.symm, by omega⟩,
      fun h => ⟨Nat.lt_succ_of_le (h.value ▸ h.le), h.value.symm⟩⟩
  · have hall : digits.all Char.isDigit = false := by simpa using hd
    exact iff_of_false (by simp [hall]) fun h => hd h.isDigit

/-- Numbers are read with one plus sign in front of them, or none. -/
theorem number?_eq_some_iff : number? 65536 rest = some n ↔
    ∃ digits, IsNumber n digits ∧ (rest = digits ∨ rest = '+' :: digits) := by
  have hplus : ¬('+' : Char).isDigit = true := by decide
  unfold number?
  split
  · rename_i digits
    rw [digits_eq_some_iff]
    constructor
    · exact fun h => ⟨digits, h, Or.inr rfl⟩
    · rintro ⟨_, h, rfl | he⟩
      · exact absurd (h.isDigit '+' List.mem_cons_self) hplus
      · obtain rfl := List.tail_eq_of_cons_eq he
        exact h
  · rename_i hsign
    rw [digits_eq_some_iff]
    constructor
    · exact fun h => ⟨rest, h, Or.inl rfl⟩
    · rintro ⟨digits, h, rfl | rfl⟩
      · exact h
      · exact absurd rfl (hsign digits)

theorem dispatch?_eq_some_iff : dispatch? rest = some s ↔
    (∃ id : String, id ≠ "" ∧ ':' ∉ id.toList ∧ s = .dispatch none id ∧ rest = id.toList) ∨
      ∃ dispatcher id : String, dispatcher ≠ "" ∧ ':' ∉ dispatcher.toList ∧ id ≠ "" ∧
        s = .dispatch (some dispatcher) id ∧ rest = dispatcher.toList ++ ':' :: id.toList := by
  rw [dispatch?]
  constructor
  · intro h
    split at h
    · rename_i dispatcher id hcut
      split at h
      · cases h
      · rename_i hn
        simp only [Bool.or_eq_true, List.isEmpty_iff, not_or] at hn
        refine Or.inr ⟨.ofList dispatcher, .ofList id, ?_, ?_, ?_, (Option.some.inj h).symm, ?_⟩
        · exact mt String.ofList_eq_empty_iff.mp hn.1
        · rw [String.toList_ofList]
          exact Text.Chars.not_mem_of_cut?_eq_some hcut
        · exact mt String.ofList_eq_empty_iff.mp hn.2
        · rw [String.toList_ofList, String.toList_ofList, Text.Chars.eq_of_cut? hcut]
    · rename_i hcut
      obtain ⟨hn, rfl⟩ := of_rest h
      refine Or.inl ⟨.ofList rest, hn, ?_, rfl, String.toList_ofList.symm⟩
      rw [String.toList_ofList]
      exact Text.Chars.not_mem_of_cut? hcut
  · rintro (⟨id, hid, hc, rfl, rfl⟩ | ⟨dispatcher, id, hd, hc, hid, rfl, rfl⟩)
    · simp [Text.Chars.cut?_eq_none hc, hid]
    · simp [Text.Chars.cut?_append hc, hd, hid]

/-- A text that starts with a slash is a capture, which hides its target where a mark ends it. -/
theorem parse?_of_slash (h : text.toList.head? = some '/') :
    parse? text = match Text.dropTail? "!" text with
      | some uri => some (.capture uri true)
      | none => some (.capture text false) := by
  obtain ⟨rest, hr⟩ := List.head?_eq_some_iff.mp h
  cases hd : Text.dropTail? "!" text <;> simp [parse?, hr, hd]

/-- A text without a mark is the word for a hidden route, or a type. -/
theorem parse?_of_plain (h : text ≠ "") (hm : ∀ c, text.toList.head? = some c → c ∉ marks) :
    parse? text = if text = "hidden" then some .hidden else some (.type text) := by
  rw [parse?]
  split
  · rename_i hr
    exact absurd (String.toList_eq_nil_iff.mp hr) h
  case h_7 => rfl
  all_goals
    -- Each of the other branches is that of a mark.
    rename_i hr
    rw [hr] at hm
    exact absurd (by decide) (hm _ rfl)

theorem parse?_of_written (h : Written s text) : parse? text = some s := by
  cases h with
  | word => rfl
  | mark => rfl
  | status h =>
    have hn := number?_eq_some_iff.mpr ⟨_, h, Or.inl rfl⟩
    simp [parse?, h.ne_nil, hn]
  | captureHiding h => rw [parse?_of_slash h, Text.dropTail?_eq_some.mpr rfl]
  | capture h hn => rw [parse?_of_slash h, Text.dropTail?_eq_none.mpr hn]
  | redirect h => simp [parse?, h]
  | dispatch h hc =>
    have hd := dispatch?_eq_some_iff.mpr (Or.inl ⟨_, h, hc, rfl, rfl⟩)
    simp [parse?, hd]
  | dispatchTo hd hc h =>
    have hd := dispatch?_eq_some_iff.mpr (Or.inr ⟨_, _, hd, hc, h, rfl, rfl⟩)
    simp [parse?, hd]
  | resource h => simp [parse?, h]
  | type h hw hm => rw [parse?_of_plain h hm, if_neg hw]

theorem parse?_of_signed (h : Signed s text) : parse? text = some s := by
  obtain ⟨n, digits, h, rfl, rfl⟩ := h
  have hn := number?_eq_some_iff.mpr ⟨_, h, Or.inr rfl⟩
  simp [parse?, hn]

theorem written_or_signed_of_mark
    (h : (if rest.isEmpty = true then some .hidden else (number? 65536 rest).map .status) = some s) :
    Written s ("!" ++ .ofList rest) ∨ Signed s ("!" ++ .ofList rest) := by
  split at h
  · rename_i he
    obtain rfl := Option.some.inj h
    obtain rfl := List.isEmpty_iff.mp he
    exact Or.inl .mark
  · obtain ⟨n, hn, rfl⟩ := Option.map_eq_some_iff.mp h
    obtain ⟨digits, hdigits, rfl | rfl⟩ := number?_eq_some_iff.mp hn
    · exact Or.inl (.status hdigits)
    · exact Or.inr ⟨n, digits, hdigits, rfl, String.ext (by simp)⟩

theorem written_of_slash (hs : text.toList.head? = some '/') (h : parse? text = some s) :
    Written s text := by
  rw [parse?_of_slash hs] at h
  split at h
  · rename_i uri htail
    obtain rfl := Option.some.inj h
    obtain rfl := Text.dropTail?_eq_some.mp htail
    exact .captureHiding hs
  · rename_i htail
    obtain rfl := Option.some.inj h
    exact .capture hs (Text.dropTail?_eq_none.mp htail)

theorem written_of_dispatch? (h : dispatch? rest = some s) :
    Written s ("@" ++ .ofList rest) := by
  rcases dispatch?_eq_some_iff.mp h with
    ⟨id, hid, hc, rfl, rfl⟩ | ⟨dispatcher, id, hd, hc, hid, rfl, rfl⟩
  · rw [String.ofList_toList]
    exact .dispatch hid hc
  · have htext : "@" ++ .ofList (dispatcher.toList ++ ':' :: id.toList) =
        "@" ++ dispatcher ++ ":" ++ id := String.ext (by simp)
    rw [htext]
    exact .dispatchTo hd hc hid

theorem written_or_signed_of_parse? (h : parse? text = some s) :
    Written s text ∨ Signed s text := by
  have hparse := h
  rw [parse?] at h
  split at h
  · cases h
  · rename_i rest hr
    rw [eq_of_toList hr]
    exact written_or_signed_of_mark h
  · rename_i rest hr
    exact Or.inl (written_of_slash (by rw [hr]; rfl) hparse)
  · rename_i rest hr
    rw [eq_of_toList hr]
    obtain ⟨hn, rfl⟩ := of_rest h
    exact Or.inl (.redirect hn)
  · rename_i rest hr
    rw [eq_of_toList hr]
    exact Or.inl (written_of_dispatch? h)
  · rename_i rest hr
    rw [eq_of_toList hr]
    obtain ⟨hn, rfl⟩ := of_rest h
    exact Or.inl (.resource hn)
  · rename_i hempty hmark hslash hredirect hdispatch hresource
    split at h
    · rename_i hw
      obtain rfl := Option.some.inj h
      rw [hw]
      exact Or.inl .word
    · rename_i hw
      obtain rfl := Option.some.inj h
      refine Or.inl (.type (fun he => hempty (by rw [he]; rfl)) hw fun c hc hm => ?_)
      obtain ⟨rest, hr⟩ := List.head?_eq_some_iff.mp hc
      simp only [marks, List.mem_cons, List.not_mem_nil, or_false] at hm
      rcases hm with rfl | rfl | rfl | rfl | rfl
      · exact hmark rest hr
      · exact hslash rest hr
      · exact hredirect rest hr
      · exact hdispatch rest hr
      · exact hresource rest hr

/-- There's no way to write a shorthand with a plus sign in front of its number. -/
theorem not_written_of_signed {s' : Shorthand} (h : Signed s text) : ¬Written s' text := by
  intro hw
  obtain rfl := Option.some.inj ((parse?_of_signed h).symm.trans (parse?_of_written hw))
  obtain ⟨n, digits, -, rfl, htext⟩ := h
  cases hw with
  | status h =>
    rename_i written
    have hl : '+' :: digits = written := by simpa using congrArg String.toList htext.symm
    exact absurd (h.isDigit '+' (hl ▸ List.mem_cons_self)) (by decide)

/-- A text is read as the shorthand it's written for, or as a status where a plus sign stands in
front of the number. So the grammar says what a text is read as if and only if there's no such sign.
A text that isn't read at all is a malformed descriptor. -/
theorem parse?_eq_some_iff_written (text : String) :
    (∀ s, parse? text = some s ↔ Written s text ∨ Signed s text) ∧
    ((∀ s, parse? text = some s ↔ Written s text) ↔ ∀ s, ¬Signed s text) ∧
    (parse? text = none → Descriptor.ofText text = .error (.malformed text)) := by
  have hiff (s : Shorthand) : parse? text = some s ↔ Written s text ∨ Signed s text :=
    ⟨written_or_signed_of_parse?, fun h => h.elim parse?_of_written parse?_of_signed⟩
  refine ⟨hiff, ⟨fun h s hs => ?_, fun h s => ?_⟩, fun hn => ?_⟩
  · exact not_written_of_signed hs ((h s).mp (parse?_of_signed hs))
  · rw [hiff, or_iff_left (h s)]
  · rw [Descriptor.ofText, hn]

/-- `!+404` is read, though it's not in the grammar. -/
theorem not_parse?_eq_some_iff_written :
    ¬∀ text s, parse? text = some s ↔ Written s text := by
  intro h
  have hdigits : ∀ c ∈ ['4', '0', '4'], c.isDigit = true := List.all_eq_true.mp (by decide)
  have hsigned : Signed (.status 404) "!+404" :=
    ⟨404, ['4', '0', '4'], ⟨by decide, hdigits, by decide, by decide⟩, rfl, by decide⟩
  exact not_written_of_signed hsigned ((h _ _).mp (parse?_of_signed hsigned))

end Shorthand

end RequestRouting
