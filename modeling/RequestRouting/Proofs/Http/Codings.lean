import RequestRouting.Proofs.Decimal.Numeral
import RequestRouting.Proofs.Serving.Compression
import RequestRouting.Proofs.Text.Pieces

/-!
# Lists of accepted codings

A client lists the codings it accepts, each with a weight that tells how much it likes the coding. A
weight of zero refuses it, and a star stands for all codings that aren't named. The elements of the
list are looked at one by one, so a star takes over where gzip itself is refused.
-/

namespace RequestRouting

namespace Compress

/-- Blank characters. -/
abbrev Blanks := { s : List Char // ∀ c ∈ s, Text.isBlank c = true }

/-- A weight as it's written: the letter in either case, and a decimal number. -/
structure Weight where
  lead : Blanks
  tail : Blanks
  mark : Char
  number : Decimal.Numeral
  isMark : mark = 'q' ∨ mark = 'Q'

namespace Weight

def parameter (w : Weight) : List Char := w.mark :: '=' :: w.number.text

def text (w : Weight) : List Char := w.lead.val ++ w.parameter ++ w.tail.val

end Weight

/-- A coding as it's written, with blanks around its name and its weight, which may be left out. -/
structure Coding where
  lead : Blanks
  name : List Char
  tail : Blanks
  weight : Option Weight := none
  trimmed : Text.Chars.trim Text.isBlank name = name
  marks : ',' ∉ name ∧ ';' ∉ name

namespace Coding

/-- The name with the blanks around it. -/
def padded (c : Coding) : List Char := c.lead.val ++ c.name ++ c.tail.val

def text (c : Coding) : List Char := c.padded ++ c.weight.elim [] fun w => ';' :: w.text

/-- The weight of a coding, which is one if it's left out. -/
def value (c : Coding) : ℚ := c.weight.elim 1 (·.number.value)

/-- Whether a coding is gzip, in any letter case. -/
def IsGzip (c : Coding) : Prop := c.name.map Char.toLower = "gzip".toList

/-- Whether a coding is the star that stands for all others. -/
def IsStar (c : Coding) : Prop := c.name = ['*']

/-- Whether the weight of a coding is left out or written with the small letter. -/
def IsPlain (c : Coding) : Prop := ∀ w, c.weight = some w → w.mark = 'q'

/-- Whether a coding is accepted as far as its weight is read: one that is written with the small
letter must not be taken for zero. -/
def IsTaken (c : Coding) : Prop :=
  ∀ w, c.weight = some w → w.mark = 'q' → Decimal.negligible < w.number.value

end Coding

/-- A list of codings as it's written. -/
def codingsText (codings : List Coding) : List Char := [','].intercalate (codings.map Coding.text)

/-- Whether a list permits gzip: it's named with a weight above zero, or it isn't named but the star
is, with a weight above zero. -/
def Permits (codings : List Coding) : Prop :=
  (∃ c ∈ codings, c.IsGzip ∧ 0 < c.value) ∨
    (∀ c ∈ codings, ¬c.IsGzip) ∧ ∃ c ∈ codings, c.IsStar ∧ 0 < c.value

/-- Whether a list refuses gzip: it's named, but never with a weight above zero. -/
def Refuses (codings : List Coding) : Prop :=
  (∃ c ∈ codings, c.IsGzip) ∧ ∀ c ∈ codings, c.IsGzip → c.value ≤ 0

/-! Elements are read as the codings that were written. -/

theorem of_mem_number {n : Decimal.Numeral} {c : Char} (h : c ∈ n.text) :
    Text.isBlank c = false ∧ c ≠ ',' ∧ c ≠ ';' := by
  have hdigit : ∀ d : Fin 10, Text.isBlank (Nat.digitChar d.val) = false ∧
      Nat.digitChar d.val ≠ ',' ∧ Nat.digitChar d.val ≠ ';' := by decide +kernel
  have hother : ∀ c ∈ ['+', '-', '.', 'e', 'E'], Text.isBlank c = false ∧ c ≠ ',' ∧ c ≠ ';' := by
    simp [Text.isBlank]
  rcases n.mem_text h with ⟨d, rfl⟩ | h
  · exact hdigit d
  · exact hother c h

theorem not_mem_blanks (b : Blanks) : ',' ∉ b.val ∧ ';' ∉ b.val := by
  constructor <;> exact fun h => absurd (b.property _ h) (by decide)

namespace Weight

variable (w : Weight)

theorem of_mem_parameter {c : Char} (h : c ∈ w.parameter) :
    Text.isBlank c = false ∧ c ≠ ',' ∧ c ≠ ';' := by
  rcases List.mem_cons.mp h with rfl | h
  · rcases w.isMark with hm | hm <;> rw [hm] <;> decide
  · rcases List.mem_cons.mp h with rfl | h
    · decide
    · exact of_mem_number h

theorem not_mem_text : ',' ∉ w.text ∧ ';' ∉ w.text := by
  have hlead := not_mem_blanks w.lead
  have htail := not_mem_blanks w.tail
  have hcomma : ',' ∉ w.parameter := fun h => (w.of_mem_parameter h).2.1 rfl
  have hsemicolon : ';' ∉ w.parameter := fun h => (w.of_mem_parameter h).2.2 rfl
  simp [text, hlead, htail, hcomma, hsemicolon]

theorem trim_text : Text.Chars.trim Text.isBlank w.text = w.parameter := by
  rw [text, Text.Chars.trim_append_append w.lead.property w.tail.property]
  exact Text.Chars.trim_eq_self_of_forall fun c hc => (w.of_mem_parameter hc).1

/-- Only the small letter marks a weight. -/
theorem dropLead?_parameter : Text.dropLead? "q=" (.ofList w.parameter) =
    if w.mark = 'q' then some (.ofList w.number.text) else none := by
  have hlead : "q=".toList = ['q', '='] := by decide
  by_cases hm : w.mark = 'q'
  · simp [Text.dropLead?, Text.Chars.dropLead?, hlead, parameter, hm]
  · simp [Text.dropLead?, Text.Chars.dropLead?, hlead, parameter, hm, Ne.symm hm]

end Weight

namespace Coding

variable (c : Coding)

theorem not_mem_padded : ',' ∉ c.padded ∧ ';' ∉ c.padded := by
  have hlead := not_mem_blanks c.lead
  have htail := not_mem_blanks c.tail
  simp [padded, hlead, htail, c.marks]

theorem not_mem_text : ',' ∉ c.text := by
  cases hw : c.weight with
  | none => simp [text, hw, c.not_mem_padded.1]
  | some w => simp [text, hw, c.not_mem_padded.1, w.not_mem_text.1]

/-- The name of a coding and its weight, without the blanks around them. -/
theorem trim_pieces_text : (Text.Chars.pieces ';' c.text).map (Text.Chars.trim Text.isBlank) =
    c.name :: (c.weight.map Weight.parameter).toList := by
  have hname : Text.Chars.trim Text.isBlank c.padded = c.name := by
    rw [padded, Text.Chars.trim_append_append c.lead.property c.tail.property, c.trimmed]
  have hpadded := Text.Chars.pieces_eq_singleton c.not_mem_padded.2
  cases hw : c.weight with
  | none => simp [text, hw, hpadded, hname]
  | some w =>
    have htext := Text.Chars.pieces_eq_singleton w.not_mem_text.2
    simp [text, hw, Text.Chars.pieces_append, hpadded, htext, hname, w.trim_text]

theorem tokenAccepts_text : tokenAccepts (.ofList c.text) = true ↔
    (c.IsGzip ∨ c.IsStar) ∧ c.IsTaken := by
  have hparts : (Text.pieces ';' (.ofList c.text)).map (Text.trim Text.isBlank) =
      .ofList c.name :: (c.weight.map fun w => .ofList w.parameter).toList := by
    have h := congrArg (List.map String.ofList) c.trim_pieces_text
    simpa [Text.pieces, Text.trim, Function.comp_def, Option.toList_map] using h
  have hgzip : Text.sameLetters (.ofList c.name) "gzip" = true ↔ c.IsGzip :=
    Text.sameLetters_word (by decide)
  have hstar : String.ofList c.name = "*" ↔ c.IsStar := by
    rw [IsStar, ← String.ofList_inj]
  simp only [tokenAccepts, hparts]
  cases hw : c.weight with
  | none => simp [hgzip, hstar, IsTaken, hw]
  | some w =>
    have hread : Decimal.isZeroOrLess (.ofList w.number.text) = false ↔
        Decimal.negligible < w.number.value := by
      rw [← not_le, ← w.number.isZeroOrLess_text, Bool.not_eq_true]
    by_cases hm : w.mark = 'q'
    · simp [hgzip, hstar, IsTaken, hw, w.dropLead?_parameter, hm, hread]
    · simp [hgzip, hstar, IsTaken, hw, w.dropLead?_parameter, hm]

end Coding

theorem accepts_codingsText (codings : List Coding) : accepts (.ofList (codingsText codings)) = true ↔
    ∃ c ∈ codings, (c.IsGzip ∨ c.IsStar) ∧ c.IsTaken := by
  by_cases hn : codings = []
  · subst hn
    simp only [List.not_mem_nil, false_and, exists_false, iff_false]
    decide
  · have hpieces : Text.pieces ',' (.ofList (codingsText codings)) =
        codings.map fun c => .ofList c.text := by
      have hmark : ∀ text ∈ codings.map Coding.text, ',' ∉ text := by
        simpa using fun c _ => c.not_mem_text
      simp [Text.pieces, codingsText, Text.Chars.pieces_intercalate (by simpa using hn) hmark]
    simp [accepts, hpieces, Coding.tokenAccepts_text]

/-! Which responses are encoded. -/

theorem apply_ne_iff (layer : Compress) (req : Request) (res : Response) :
    layer.apply req res ≠ res ↔ isAccepted req = true ∧ layer.isEligible res = true := by
  by_cases h : isAccepted req = true ∧ layer.isEligible res = true
  · have hne : encode res ≠ res := by
      intro he
      have hagain := isEligible_encode layer res
      rw [he, h.2] at hagain
      simp at hagain
    simp [apply, h, hne]
  · have hkept : layer.apply req res = res := by
      simp only [apply, Bool.and_eq_true, if_neg h]
    simp [hkept, h]

/-- A list that refuses gzip doesn't permit it. -/
theorem Refuses.not_permits {codings : List Coding} (h : Refuses codings) : ¬Permits codings := by
  obtain ⟨⟨c, hc, hgzip⟩, hweights⟩ := h
  rintro (⟨c, hc, hgzip, hpositive⟩ | ⟨hnone, -⟩)
  · exact absurd hpositive (not_lt.mpr (hweights c hc hgzip))
  · exact hnone c hc hgzip

theorem Coding.IsTaken.value_pos {c : Coding} (h : c.IsTaken) (hp : c.IsPlain) : 0 < c.value := by
  cases hw : c.weight with
  | none => simp [Coding.value, hw]
  | some w =>
    have hnegligible : 0 < Decimal.negligible := by norm_num [Decimal.negligible]
    simpa [Coding.value, hw] using hnegligible.trans (h w hw (hp w hw))

/-- A response is encoded if it's eligible and the list has gzip or the star with a weight that isn't
taken for zero, whatever else the list says. If all weights are written with the small letter, the
list then permits gzip, unless gzip is refused by name. -/
theorem encodes_iff (layer : Compress) {req : Request} {codings : List Coding}
    (h : req.headers.get? .acceptEncoding = some (.ofList (codingsText codings)))
    (res : Response) :
    (layer.apply req res ≠ res ↔ layer.isEligible res = true ∧
      ∃ c ∈ codings, (c.IsGzip ∨ c.IsStar) ∧ c.IsTaken) ∧
    ((∀ c ∈ codings, c.IsPlain) → layer.apply req res ≠ res →
      (Permits codings ↔ ¬Refuses codings)) := by
  have haccepted : isAccepted req = true ↔ ∃ c ∈ codings, (c.IsGzip ∨ c.IsStar) ∧ c.IsTaken := by
    rw [isAccepted, h, ← accepts_codingsText]
    exact Iff.rfl
  have hencoded : layer.apply req res ≠ res ↔ layer.isEligible res = true ∧
      ∃ c ∈ codings, (c.IsGzip ∨ c.IsStar) ∧ c.IsTaken := by
    rw [apply_ne_iff, haccepted, and_comm]
  refine ⟨hencoded, fun hplain hne => ⟨fun hp hr => hr.not_permits hp, fun hr => ?_⟩⟩
  obtain ⟨-, c, hc, hname, htaken⟩ := hencoded.mp hne
  have hpositive := htaken.value_pos (hplain c hc)
  rcases hname with hgzip | hstar
  · exact Or.inl ⟨c, hc, hgzip, hpositive⟩
  · by_cases hnamed : ∃ c ∈ codings, c.IsGzip
    · -- As gzip isn't refused, it's named with a weight above zero somewhere.
      have hsome : ∃ c ∈ codings, c.IsGzip ∧ 0 < c.value := by
        by_contra hnone
        exact hr ⟨hnamed, fun c hc hgzip => not_lt.mp fun hp => hnone ⟨c, hc, hgzip, hp⟩⟩
      exact Or.inl hsome
    · exact Or.inr ⟨fun c hc hgzip => hnamed ⟨c, hc, hgzip⟩, c, hc, hstar, hpositive⟩

/-! A list that prefers gzip, and one that refuses it. -/

/-- A weight with a single digit, or with a place behind the point. -/
def weightOf (whole : Fin 10) (place : Option (Fin 10)) : Weight where
  lead := ⟨[], by simp⟩
  tail := ⟨[], by simp⟩
  mark := 'q'
  number := { whole := [whole], fraction := place.map fun d => [d], ne_empty := by simp }
  isMark := Or.inl rfl

def gzipOf (weight : Weight) : Coding where
  lead := ⟨[], by simp⟩
  name := "GZip".toList
  tail := ⟨[], by simp⟩
  weight := some weight
  trimmed := by decide +kernel
  marks := by decide

def starOf (weight : Option Weight) : Coding where
  lead := ⟨[' '], by simp [Text.isBlank]⟩
  name := ['*']
  tail := ⟨[], by simp⟩
  weight := weight
  trimmed := by decide +kernel
  marks := by decide

/-- A request with a list of accepted codings. -/
def requestOf (codings : List Coding) : Request where
  headers := .ofList [(.acceptEncoding, .ofList (codingsText codings))]

example : codingsText [gzipOf (weightOf 0 (some 5)), starOf (some (weightOf 0 none))] =
    "GZip;q=0.5, *;q=0".toList := by decide

theorem encodes_iff_preferred :
    let codings := [gzipOf (weightOf 0 (some 5)), starOf (some (weightOf 0 none))]
    (requestOf codings).headers.get? .acceptEncoding = some (.ofList (codingsText codings)) ∧
      (∀ c ∈ codings, c.IsPlain) ∧
      apply { threshold := 0 } (requestOf codings) (.ofText "text") ≠ .ofText "text" ∧
      Permits codings := by
  intro codings
  have hplain : ∀ c ∈ codings, c.IsPlain := by
    simp [codings, Coding.IsPlain, gzipOf, starOf, weightOf]
  have hvalue : (weightOf 0 (some 5)).number.value = 1 / 2 := by
    norm_num [weightOf, Decimal.Numeral.value, Decimal.Numeral.digits, Decimal.Numeral.scale,
      Decimal.Sign.factor, Decimal.Sign.isMinus, Decimal.digitsValue, Nat.ofDigits]
  have hheld : Decimal.negligible < 1 / 2 := by norm_num [Decimal.negligible]
  have hgzip : (gzipOf (weightOf 0 (some 5))).IsGzip := by
    unfold Coding.IsGzip
    decide
  have htaken : (gzipOf (weightOf 0 (some 5))).IsTaken := by
    rintro w ⟨⟩ -
    rwa [hvalue]
  have hmem : gzipOf (weightOf 0 (some 5)) ∈ codings := List.mem_cons_self
  have hlist : (requestOf codings).headers.get? .acceptEncoding =
      some (.ofList (codingsText codings)) := rfl
  obtain ⟨hencoded, hpermits⟩ := encodes_iff { threshold := 0 } hlist (.ofText "text")
  have hne := hencoded.mpr ⟨by decide +kernel, _, hmem, Or.inl hgzip, htaken⟩
  refine ⟨hlist, hplain, hne, (hpermits hplain hne).mpr fun hr => ?_⟩
  have hzero : (weightOf 0 (some 5)).number.value ≤ 0 := hr.2 _ hmem hgzip
  norm_num [hvalue] at hzero

/-- A response may be encoded though the list doesn't permit it. -/
theorem not_permits_always : ¬∀ (layer : Compress) (req : Request) (codings : List Coding)
    (res : Response), req.headers.get? .acceptEncoding = some (.ofList (codingsText codings)) →
      layer.apply req res ≠ res → Permits codings := by
  intro h
  have hvalue : (weightOf 0 none).number.value = 0 := by
    simp [weightOf, Decimal.Numeral.value, Decimal.Numeral.digits, Decimal.digitsValue]
  have hrefuses : Refuses [gzipOf (weightOf 0 none), starOf none] := by
    refine ⟨⟨_, List.mem_cons_self, ?_⟩, fun c hc hgzip => ?_⟩
    · unfold Coding.IsGzip
      decide
    · rcases List.mem_pair.mp hc with rfl | rfl
      · exact hvalue.le
      · unfold Coding.IsGzip at hgzip
        exact absurd hgzip (by decide)
  refine hrefuses.not_permits (h { threshold := 0 } (requestOf _) _ (.ofText "text") rfl ?_)
  rw [apply_ne_iff]
  exact ⟨by decide +kernel, by decide +kernel⟩

end Compress

end RequestRouting
