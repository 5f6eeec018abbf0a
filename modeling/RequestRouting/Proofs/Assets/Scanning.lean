import Mathlib.Data.List.Infix
import RequestRouting.Assets.Minify

/-!
# Splitting sources

A source splits into characters of code, string literals, comments and notices, which are comments to
be kept. Scanning it leaves out the comments and keeps everything else as it is, as long as notices
may be taken for code and no line comment stands right behind a colon.
-/

namespace RequestRouting.Minify

/-- A part of a source. -/
inductive Piece where
  | code (c : Char)
  | literal (delimiter : Char) (body : List Char)
  | line (text : List Char)
  | block (text : List Char)
  | notice (text : List Char)
  deriving DecidableEq

namespace Piece

/-- A part as it's written. -/
def text : Piece → List Char
  | code c => [c]
  | literal delimiter body => delimiter :: (body ++ [delimiter])
  | line text => '/' :: '/' :: text
  | block text => '/' :: '*' :: (text ++ ['*', '/'])
  | notice text => '/' :: '*' :: '!' :: (text ++ ['*', '/'])

/-- Whether a part is a comment. -/
def isComment : Piece → Bool
  | code _ | literal _ _ | notice _ => false
  | line _ | block _ => true

/-- Whether a part is to be kept as it is. -/
def isFixed : Piece → Bool
  | literal _ _ | notice _ => true
  | code _ | line _ | block _ => false

/-- A part without comments. -/
def kept (p : Piece) : List Char := if p.isComment then [] else p.text

end Piece

/-- The source that consists of some parts. -/
def source (pieces : List Piece) : List Char := pieces.flatMap Piece.text

/-- What is between delimiters: a backslash escapes the character behind it. -/
inductive IsBody (delimiter : Char) : List Char → Prop where
  | nil : IsBody delimiter []
  | plain {c : Char} {body : List Char} (hd : c ≠ delimiter) (hs : c ≠ '\x5c')
      (h : IsBody delimiter body) : IsBody delimiter (c :: body)
  | escaped (c : Char) {body : List Char} (h : IsBody delimiter body) :
      IsBody delimiter ('\x5c' :: c :: body)

/-- Whether a comment opens at a character in front of another one. -/
def Opens (lang : Minify) (c : Char) (next : Option Char) : Prop :=
  c = '/' ∧ (next = some '*' ∨ lang = .script ∧ next = some '/')

/-- Whether parts are the ones that their source splits into. Code has no delimiters, and no comment
opens in it. A comment ends where it's closed first, or at the end of the line. -/
inductive IsSplit (lang : Minify) : List Piece → Prop where
  | nil : IsSplit lang []
  | code {c : Char} {pieces : List Piece} (hd : lang.isDelimiter c = false)
      (ho : ¬lang.Opens c (source pieces).head?) (h : IsSplit lang pieces) :
      IsSplit lang (.code c :: pieces)
  | literal {d : Char} {body : List Char} {pieces : List Piece} (hd : lang.isDelimiter d = true)
      (hb : IsBody d body) (h : IsSplit lang pieces) : IsSplit lang (.literal d body :: pieces)
  | line {text : List Char} {pieces : List Piece} (hl : lang = .script) (ht : '\n' ∉ text)
      (he : ∀ c, (source pieces).head? = some c → c = '\n') (h : IsSplit lang pieces) :
      IsSplit lang (.line text :: pieces)
  | block {text : List Char} {pieces : List Piece} (ht : ¬['*', '/'] <:+: text)
      (hn : text.head? ≠ some '!') (h : IsSplit lang pieces) : IsSplit lang (.block text :: pieces)
  | notice {text : List Char} {pieces : List Piece} (ht : ¬['*', '/'] <:+: text)
      (h : IsSplit lang pieces) : IsSplit lang (.notice text :: pieces)

/-- Whether a text behind one character and in front of another one may be taken for code: it has no
delimiters, and no comment opens in it, but for two slashes behind a colon. -/
def IsSilent (lang : Minify) (next : Option Char) : Char → List Char → Prop
  | _, [] => True
  | prev, c :: text =>
    lang.isDelimiter c = false ∧
      (lang.Opens c (text.head?.or next) → prev = ':' ∧ text.head?.or next = some '/') ∧
      IsSilent lang next c text

/-- Whether the scanner makes out the parts: notices may be taken for code, and no line comment
stands right behind a colon. -/
structure IsPlain (lang : Minify) (pieces : List Piece) : Prop where
  notice : ∀ front text rest, pieces = front ++ .notice text :: rest →
    lang.IsSilent (source rest).head? '!' (text ++ ['*', '/'])
  colon : ∀ front text rest, pieces ≠ front ++ .code ':' :: .line text :: rest

variable {lang : Minify} {prev c : Char} {text rest : List Char} {pieces : List Piece}

theorem IsPlain.tail {p : Piece} (h : IsPlain lang (p :: pieces)) : IsPlain lang pieces := by
  constructor
  · intro front text rest he
    exact h.notice (p :: front) text rest (by rw [he, List.cons_append])
  · intro front text rest he
    exact h.colon (p :: front) text rest (by rw [he, List.cons_append])

theorem IsPlain.nil : IsPlain lang [] := ⟨by simp, by simp⟩

theorem IsPlain.cons {p : Piece} (hp : p ≠ .code ':')
    (hn : ∀ text, p = .notice text →
      lang.IsSilent (source pieces).head? '!' (text ++ ['*', '/']))
    (h : IsPlain lang pieces) : IsPlain lang (p :: pieces) := by
  constructor
  · intro front text rest he
    cases front with
    | nil =>
      obtain ⟨rfl, rfl⟩ := List.cons.inj he
      exact hn text rfl
    | cons q front => exact h.notice front text rest (List.cons.inj he).2
  · intro front text rest he
    cases front with
    | nil => exact hp (List.cons.inj he).1
    | cons q front => exact h.colon front text rest (List.cons.inj he).2

/-- Nothing stands behind a colon where there is none. -/
theorem IsPlain.codes (ht : ':' ∉ text) (h : IsPlain lang pieces) :
    IsPlain lang (text.map Piece.code ++ pieces) := by
  induction text with
  | nil => exact h
  | cons c text ih =>
    rw [List.mem_cons, not_or] at ht
    exact .cons (by simpa using Ne.symm ht.1) (by simp) (ih ht.2)

/-- Code without slashes splits into its characters. -/
theorem IsSplit.codes (ht : (text.all fun c => !lang.isDelimiter c && c ≠ '/') = true)
    (h : IsSplit lang pieces) : IsSplit lang (text.map Piece.code ++ pieces) := by
  induction text with
  | nil => exact h
  | cons c text ih =>
    simp only [List.all_cons, Bool.and_eq_true, Bool.not_eq_true', decide_eq_true_eq] at ht
    exact .code ht.1.1 (fun ho => ht.1.2 ho.1) (ih (by simpa using ht.2))

theorem isBody_of_all {d : Char} (h : (text.all fun c => c ≠ d && c ≠ '\x5c') = true) :
    IsBody d text := by
  induction text with
  | nil => exact .nil
  | cons c text ih =>
    simp only [List.all_cons, Bool.and_eq_true, decide_eq_true_eq] at h
    exact .plain h.1.1 h.1.2 (ih (by simpa using h.2))

@[simp] theorem source_nil : source [] = [] := rfl

@[simp] theorem source_cons (p : Piece) (pieces : List Piece) :
    source (p :: pieces) = p.text ++ source pieces := List.flatMap_cons

theorem slash_ne_of_isDelimiter {d : Char} (h : lang.isDelimiter d = true) :
    d ≠ '/' ∧ d ≠ '\x5c' := by
  constructor <;> rintro rfl <;> cases lang <;> simp [isDelimiter] at h

/-! The equations of scanning. -/

@[simp] theorem strip_nil (mode : Mode) : strip lang mode prev [] = [] := rfl

theorem strip_last (mode : Mode) : strip lang mode prev [c] =
    match mode with
    | .code | .literal _ => [c]
    | .line => if c = '\n' then [c] else []
    | .block => [] := by cases mode <;> rfl

theorem strip_cons_cons (mode : Mode) (next : Char) : strip lang mode prev (c :: next :: rest) =
    match mode with
    | .code =>
      if c = '/' && next = '*' && rest.head? ≠ some '!' then strip lang .block c rest
      else if c = '/' && next = '/' && lang = .script && prev ≠ ':' then
        strip lang .line c (next :: rest)
      else if lang.isDelimiter c then c :: strip lang (.literal c) c (next :: rest)
      else c :: strip lang .code c (next :: rest)
    | .literal delimiter =>
      if c = '\x5c' then c :: next :: strip lang (.literal delimiter) c rest
      else if c = delimiter then c :: strip lang .code c (next :: rest)
      else c :: strip lang (.literal delimiter) c (next :: rest)
    | .line =>
      if c = '\n' then c :: strip lang .code c (next :: rest) else strip lang .line c (next :: rest)
    | .block =>
      if c = '*' && next = '/' then strip lang .code c rest
      else strip lang .block c (next :: rest) := by cases mode <;> rfl

/-! Scanning in each of the modes. -/

/-- A character that opens nothing is kept. -/
theorem strip_code (hd : lang.isDelimiter c = false)
    (ho : lang.Opens c rest.head? → prev = ':' ∧ rest.head? = some '/') :
    strip lang .code prev (c :: rest) = c :: strip lang .code c rest := by
  cases rest with
  | nil => simp [strip_last]
  | cons next rest =>
    have hblock : ¬(c = '/' ∧ next = '*') := by
      rintro ⟨hc, rfl⟩
      simpa using ho ⟨hc, Or.inl rfl⟩
    have hline : ¬(c = '/' ∧ next = '/' ∧ lang = .script ∧ prev ≠ ':') := by
      rintro ⟨hc, rfl, hl, hp⟩
      exact hp (ho ⟨hc, Or.inr ⟨hl, rfl⟩⟩).1
    rw [strip_cons_cons]
    dsimp only
    rw [if_neg, if_neg, if_neg]
    · simp [hd]
    · simpa using hline
    · simp only [Bool.and_eq_true, decide_eq_true_eq]
      exact fun h => hblock h.1

/-- A character that isn't a slash opens no comment. -/
theorem strip_code_of_ne (hd : lang.isDelimiter c = false) (hs : c ≠ '/') :
    strip lang .code prev (c :: rest) = c :: strip lang .code c rest :=
  strip_code hd fun h => absurd h.1 hs

/-- A text that may be taken for code is kept. -/
theorem strip_silent (h : lang.IsSilent rest.head? prev text) :
    strip lang .code prev (text ++ rest) =
      text ++ strip lang .code (text.getLast?.getD prev) rest := by
  induction text generalizing prev with
  | nil => rfl
  | cons c text ih =>
    obtain ⟨hd, ho, hrest⟩ := h
    rw [← List.head?_append] at ho
    rw [List.cons_append, strip_code hd ho, ih hrest, List.cons_append]
    cases text with
    | nil => rfl
    | cons d text => simp [List.getLast?_cons]

theorem strip_literal_cons {d : Char} (hs : c ≠ '\x5c') :
    strip lang (.literal d) prev (c :: rest) =
      c :: if c = d then strip lang .code c rest else strip lang (.literal d) c rest := by
  cases rest with
  | nil => simp [strip_last]
  | cons next rest =>
    by_cases hd : c = d
    · subst hd
      simp [strip_cons_cons, hs]
    · simp [strip_cons_cons, hs, hd]

/-- A literal is kept up to its delimiter. -/
theorem strip_literal {d : Char} {body : List Char} (hd : d ≠ '\x5c') (hb : IsBody d body) :
    strip lang (.literal d) prev (body ++ d :: rest) = body ++ d :: strip lang .code d rest := by
  induction hb generalizing prev with
  | nil => simp [strip_literal_cons hd]
  | plain hc hs _ ih => simp [strip_literal_cons hs, hc, ih]
  | escaped c _ ih => simp [strip_cons_cons, ih]

theorem strip_line_cons : strip lang .line prev (c :: rest) =
    if c = '\n' then c :: strip lang .code c rest else strip lang .line c rest := by
  cases rest with
  | nil => by_cases hc : c = '\n' <;> simp [strip_last, hc]
  | cons next rest => by_cases hc : c = '\n' <;> simp [strip_cons_cons, hc]

/-- A line comment is left out up to the line feed behind it. -/
theorem strip_line (ht : '\n' ∉ text) (he : ∀ c, rest.head? = some c → c = '\n') :
    strip lang .line prev (text ++ rest) = strip lang .code '\n' rest := by
  induction text generalizing prev with
  | nil =>
    cases rest with
    | nil => simp
    | cons c rest =>
      obtain rfl := he c rfl
      have hd : lang.isDelimiter '\n' = false := by cases lang <;> rfl
      simp [strip_line_cons, strip_code_of_ne hd]
  | cons c text ih =>
    rw [List.mem_cons, not_or] at ht
    simp [strip_line_cons, Ne.symm ht.1, ih ht.2]

/-- A block comment is left out up to where it's closed first. -/
theorem strip_block (ht : ¬['*', '/'] <:+: text) :
    strip lang .block prev (text ++ '*' :: '/' :: rest) = strip lang .code '*' rest := by
  induction text generalizing prev with
  | nil => simp [strip_cons_cons]
  | cons c text ih =>
    have hrest : ¬['*', '/'] <:+: text := fun h => ht (h.trans (List.infix_cons (List.infix_refl _)))
    have hfirst : ∀ more, c = '*' → text ≠ '/' :: more := by
      rintro more rfl rfl
      exact ht ⟨[], more, rfl⟩
    cases text with
    | nil => simp [strip_cons_cons]
    | cons d text =>
      have hopen : ¬(c = '*' ∧ d = '/') := by
        rintro ⟨hc, rfl⟩
        exact hfirst text hc rfl
      have ih : strip lang .block c (d :: (text ++ '*' :: '/' :: rest)) =
          strip lang .code '*' rest := ih hrest
      simp [strip_cons_cons, hopen, ih]

/-! What opens in code. -/

theorem strip_delimiter {d : Char} (hd : lang.isDelimiter d = true) (hrest : rest ≠ []) :
    strip lang .code prev (d :: rest) = d :: strip lang (.literal d) d rest := by
  obtain ⟨hslash, -⟩ := slash_ne_of_isDelimiter hd
  cases rest with
  | nil => exact absurd rfl hrest
  | cons next rest => simp [strip_cons_cons, hd, hslash]

theorem strip_slashes (hprev : prev ≠ ':') :
    strip .script .code prev ('/' :: '/' :: rest) = strip .script .line '/' ('/' :: rest) := by
  simp [strip_cons_cons, hprev]

theorem strip_star (h : rest.head? ≠ some '!') :
    strip lang .code prev ('/' :: '*' :: rest) = strip lang .block '/' rest := by
  simp [strip_cons_cons, h]

theorem strip_mark : strip lang .code prev ('/' :: '*' :: '!' :: rest) =
    '/' :: '*' :: '!' :: strip lang .code '!' rest := by
  have hslash : lang.isDelimiter '/' = false := by cases lang <;> rfl
  have hstar : lang.isDelimiter '*' = false := by cases lang <;> rfl
  have hmark : lang.isDelimiter '!' = false := by cases lang <;> rfl
  have hfirst : strip lang .code prev ('/' :: '*' :: '!' :: rest) =
      '/' :: strip lang .code '/' ('*' :: '!' :: rest) := by
    rw [strip_cons_cons]
    simp [hslash]
  rw [hfirst, strip_code_of_ne hstar (by decide), strip_code_of_ne hmark (by decide)]

/-- Scanning a source keeps all but its comments. -/
theorem strip_source (h : IsSplit lang pieces) (hp : IsPlain lang pieces)
    (hprev : prev = ':' → ∀ text rest, pieces ≠ .line text :: rest) :
    strip lang .code prev (source pieces) = pieces.flatMap Piece.kept := by
  induction h generalizing prev with
  | nil => simp
  | @code c pieces hd ho h ih =>
    have hcolon : c = ':' → ∀ text rest, pieces ≠ .line text :: rest := by
      rintro rfl text rest rfl
      exact hp.colon [] text rest rfl
    have hkept : strip lang .code prev (c :: source pieces) =
        c :: strip lang .code c (source pieces) := strip_code hd fun h => absurd h ho
    simp [Piece.text, Piece.kept, Piece.isComment, hkept, ih hp.tail hcolon]
  | @literal d body pieces hd hb h ih =>
    obtain ⟨-, hback⟩ := slash_ne_of_isDelimiter hd
    have hcolon : d = ':' → ∀ text rest, pieces ≠ .line text :: rest := by
      rintro rfl
      cases lang <;> simp [isDelimiter] at hd
    have hrest : body ++ d :: source pieces ≠ [] := by simp
    simp [Piece.text, Piece.kept, Piece.isComment, strip_delimiter hd hrest, strip_literal hback hb,
      ih hp.tail hcolon]
  | @line text pieces hl ht he h ih =>
    subst hl
    have hne : prev ≠ ':' := fun hc => hprev hc text pieces rfl
    have hslash : '\n' ∉ '/' :: text := by simpa using ht
    have hskip : strip .script .line '/' ('/' :: text ++ source pieces) =
        strip .script .code '\n' (source pieces) := strip_line hslash he
    rw [List.cons_append] at hskip
    simp [Piece.text, Piece.kept, Piece.isComment, strip_slashes hne, hskip, ih hp.tail]
  | @block text pieces ht hn h ih =>
    have hmark : (text ++ '*' :: '/' :: source pieces).head? ≠ some '!' := by
      cases text with
      | nil => simp
      | cons c text => simpa using hn
    simp [Piece.text, Piece.kept, Piece.isComment, strip_star hmark, strip_block ht, ih hp.tail]
  | @notice text pieces ht h ih =>
    have hsilent := strip_silent (hp.notice [] text pieces rfl)
    have hlast : (text ++ ['*', '/']).getLast?.getD '!' = '/' := by simp
    rw [hlast] at hsilent
    have hkept : strip lang .code prev (source (.notice text :: pieces)) =
        '/' :: '*' :: '!' :: (text ++ ['*', '/'] ++ strip lang .code '/' (source pieces)) := by
      rw [source_cons, Piece.text, List.cons_append, List.cons_append, List.cons_append, strip_mark,
        hsilent]
    rw [hkept, ih hp.tail (by simp)]
    simp [Piece.text, Piece.kept, Piece.isComment]

end RequestRouting.Minify
