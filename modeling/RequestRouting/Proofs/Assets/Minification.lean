import RequestRouting.Proofs.Assets.Scanning
import RequestRouting.Proofs.Assets.Tidying

/-!
# What minification keeps

Comments, blanks at the end of lines and blank lines are left out, where blanks and line feeds of
string literals and notices don't count. Lines are tidied without regard to what is on them, so this
is what minification does if and only if no literal and no notice has a blank in front of a line feed
of its own; one that has is never found in a minified source.
-/

namespace RequestRouting.Minify

open Text (isBlank)

namespace Piece

/-- The characters of a part without comments, each with whether it's to be kept as it is. -/
def marked (p : Piece) : List (Char × Bool) := p.kept.map (·, p.isFixed)

end Piece

/-- The parts of a source without comments, blanks at the end of lines and blank lines, literals and
notices being kept as they are. -/
def tidied (pieces : List Piece) : List Char :=
  neat (· = ('\n', false)) (fun x => !x.2 && isBlank x.1) Prod.fst (pieces.flatMap Piece.marked)

/-- Whether a text neither starts nor ends with a blank. -/
structure IsTrimmed (w : List Char) : Prop where
  head : ∃ c, w.head? = some c ∧ isBlank c = false
  last : ∃ c, w.getLast? = some c ∧ isBlank c = false

variable {lang : Minify} {p : Piece} {pieces : List Piece}

theorem IsSplit.isDelimiter_of_mem (h : IsSplit lang pieces) {d : Char} {body : List Char}
    (hp : .literal d body ∈ pieces) : lang.isDelimiter d = true := by
  induction h with
  | nil => simp at hp
  | literal hd _ _ ih =>
    rcases List.mem_cons.mp hp with he | hp
    · simp_all
    · exact ih hp
  | code _ _ _ ih => exact ih (by simpa using hp)
  | line _ _ _ _ ih => exact ih (by simpa using hp)
  | block _ _ _ ih => exact ih (by simpa using hp)
  | notice _ _ ih => exact ih (by simpa using hp)

theorem isBlank_of_isDelimiter {d : Char} (h : lang.isDelimiter d = true) : isBlank d = false := by
  have hd : d = '\x22' ∨ d = '\x27' ∨ d = '\x60' := by
    cases lang <;> simp [isDelimiter] at h <;> tauto
  rcases hd with rfl | rfl | rfl <;> decide

/-- What is to be kept starts and ends with slashes or delimiters. -/
theorem IsSplit.isTrimmed (h : IsSplit lang pieces) (hp : p ∈ pieces) (hf : p.isFixed = true) :
    IsTrimmed p.text := by
  cases p with
  | literal d body =>
    have hd := isBlank_of_isDelimiter (h.isDelimiter_of_mem hp)
    constructor <;> exact ⟨d, by simp [Piece.text, List.getLast?_cons], hd⟩
  | notice text =>
    constructor <;> exact ⟨'/', by simp [Piece.text, List.getLast?_cons], by decide⟩
  | code c => simp [Piece.isFixed] at hf
  | line text => simp [Piece.isFixed] at hf
  | block text => simp [Piece.isFixed] at hf

theorem kept_of_isFixed (hf : p.isFixed = true) : p.kept = p.text := by
  cases p <;> simp_all [Piece.isFixed, Piece.kept, Piece.isComment]

/-- Literals and notices are kept as they are. -/
theorem tidied_cons (hf : p.isFixed = true) (hne : p.text ≠ []) : tidied (p :: pieces) =
    p.text ++ (if startsBlank (· = ('\n', false)) (fun x => !x.2 && isBlank x.1)
      (pieces.flatMap Piece.marked) then ['\n'] else []) ++ tidied pieces := by
  have hmarked : p.marked = p.text.map (·, true) := by
    rw [Piece.marked, kept_of_isFixed hf, hf]
  rw [tidied, List.flatMap_cons, hmarked, neat_append (by simpa using hne) (by simp), tidied]
  simp [Function.comp_def]

theorem isInfix_tidied (hp : p ∈ pieces) (hf : p.isFixed = true) (hne : p.text ≠ []) :
    p.text <:+: tidied pieces := by
  induction pieces with
  | nil => simp at hp
  | cons q pieces ih =>
    rcases List.mem_cons.mp hp with rfl | hp
    · rw [tidied_cons hf hne, List.append_assoc]
      exact (List.prefix_append _ _).isInfix
    · exact (ih hp).trans (neat_suffix _ _).isInfix

/-- A part that isn't fixed is a character of code, or left out. -/
theorem kept_of_not_isFixed (hf : p.isFixed = false) :
    (∃ c, p.kept = [c] ∧ p.marked = [(c, false)]) ∨ p.kept = [] ∧ p.marked = [] := by
  cases p <;> simp_all [Piece.isFixed, Piece.marked, Piece.kept, Piece.isComment, Piece.text]

theorem startsBlank_kept (ht : ∀ p ∈ pieces, p.isFixed = true → IsTrimmed p.text) :
    startsBlank (· = '\n') isBlank (pieces.flatMap Piece.kept) =
      startsBlank (· = ('\n', false)) (fun x => !x.2 && isBlank x.1)
        (pieces.flatMap Piece.marked) := by
  induction pieces with
  | nil => rfl
  | cons p pieces ih =>
    have ih := ih fun q hq => ht q (List.mem_cons_of_mem _ hq)
    cases hf : p.isFixed with
    | true =>
      obtain ⟨c, hc, hb⟩ := (ht p List.mem_cons_self hf).head
      obtain ⟨w, hw⟩ : ∃ w, p.text = c :: w := by
        cases hp : p.text <;> simp_all
      have hfeed : c ≠ '\n' := by
        rintro rfl
        exact absurd hb (by decide)
      simp [Piece.marked, kept_of_isFixed hf, hw, hf, startsBlank, hb, hfeed]
    | false =>
      rcases kept_of_not_isFixed hf with ⟨c, hk, hm⟩ | ⟨hk, hm⟩
      · simp [hk, hm, startsBlank, ih]
      · simp [hk, hm, ih]

theorem tidy_kept (ht : ∀ p ∈ pieces, p.isFixed = true → IsTrimmed p.text ∧ IsTight p.text) :
    tidy (pieces.flatMap Piece.kept) = tidied pieces := by
  induction pieces with
  | nil => rfl
  | cons p pieces ih =>
    have ih := ih fun q hq => ht q (List.mem_cons_of_mem _ hq)
    have hs := startsBlank_kept fun q hq hf => (ht q (List.mem_cons_of_mem p hq) hf).1
    cases hf : p.isFixed with
    | true =>
      obtain ⟨htrim, htight⟩ := ht p List.mem_cons_self hf
      have hhead : p.text.head? ≠ some '\n' := by
        obtain ⟨c, hc, hb⟩ := htrim.head
        rintro hn
        obtain rfl : c = '\n' := by simpa [hc] using hn
        exact absurd hb (by decide)
      have hne : p.text ≠ [] := by
        rintro hn
        simpa [hn] using htrim.head
      have h := tidy_append (s := pieces.flatMap Piece.kept) htight htrim.last
      rw [if_neg hhead, List.nil_append, ih, hs] at h
      rw [List.flatMap_cons, kept_of_isFixed hf, h, tidied_cons hf hne]
    | false =>
      rcases kept_of_not_isFixed hf with ⟨c, hk, hm⟩ | ⟨hk, hm⟩
      · rw [tidied] at ih
        rw [tidied, List.flatMap_cons, List.flatMap_cons, hk, hm, List.singleton_append,
          List.singleton_append]
        by_cases hc : c = '\n'
        · rw [hc, tidy_feed, neat_feed (by simp), ih]
        · rw [tidy_cons hc, neat_cons (by simpa using hc), hs, ih]
          simp
      · simpa [tidied, hk, hm] using ih

/-- Minification keeps literals and notices, and all of the code but blanks at the end of lines and
blank lines, if and only if no literal and no notice has a blank in front of a line feed. Those that
have one aren't found in what it makes of a source. -/
theorem toList_apply_eq_tidied_iff (h : IsSplit lang pieces) (hp : IsPlain lang pieces) :
    ((apply lang (.ofList (source pieces))).toList = tidied pieces ↔
      ∀ p ∈ pieces, p.isFixed = true → IsTight p.text) ∧
    ∀ p ∈ pieces, p.isFixed = true → ¬IsTight p.text →
      ¬p.text <:+: (apply lang (.ofList (source pieces))).toList := by
  have happly : (apply lang (.ofList (source pieces))).toList =
      tidy (pieces.flatMap Piece.kept) := by
    have hfirst : '\n' = ':' → ∀ text rest, pieces ≠ .line text :: rest := by simp
    simp [apply, strip_source h hp hfirst]
  have htight : ∀ p : Piece, p.text <:+: tidy (pieces.flatMap Piece.kept) → IsTight p.text :=
    fun p hi => (isTight_tidy _).of_isInfix hi
  rw [happly]
  refine ⟨⟨fun he p hmem hf => ?_, fun ht => ?_⟩, fun p _ _ hnot hi => hnot (htight p hi)⟩
  · have hne : p.text ≠ [] := by cases p <;> simp [Piece.text]
    exact htight p (he ▸ isInfix_tidied hmem hf hne)
  · exact tidy_kept fun p hmem hf => ⟨h.isTrimmed hmem hf, ht p hmem hf⟩

/-- A notice and a literal that reads like a comment are kept, and a comment isn't. -/
theorem toList_apply_eq_tidied_iff_licensed :
    let pieces := .notice " MIT ".toList :: ("\nvar a = ".toList.map Piece.code ++
      .literal '\x22' "// one".toList :: ("; ".toList.map Piece.code ++
        .line " one".toList :: ("\n\n".toList.map Piece.code ++ [])))
    IsSplit .script pieces ∧ IsPlain .script pieces ∧
      (apply .script (.ofList (source pieces))).toList = tidied pieces ∧
      tidied pieces = "/*! MIT */\nvar a = \x22// one\x22;\n".toList := by
  intro pieces
  have hs : IsSplit .script pieces := by
    refine .notice (by decide) (.codes (by decide) (.literal (by decide) ?_ (.codes (by decide)
      (.line rfl (by decide) ?_ (.codes (by decide) .nil)))))
    · exact isBody_of_all (by decide)
    · rintro c ⟨⟩
      rfl
  have hp : IsPlain .script pieces := by
    refine .cons (by decide) ?_ (.codes (by decide) (.cons (by decide) (by simp) (.codes (by decide)
      (.cons (by decide) (by simp) (.codes (by decide) .nil)))))
    rintro text ⟨rfl⟩
    simp [IsSilent, Opens, isDelimiter, Piece.text]
  refine ⟨hs, hp, (toList_apply_eq_tidied_iff hs hp).1.mpr ?_, by decide⟩
  decide

/-- Blanks and blank lines are taken out of a literal that has several lines. -/
theorem not_keeps_literals : ¬∀ lang pieces, IsSplit lang pieces → ∀ p ∈ pieces,
    p.isFixed = true → p.text <:+: (apply lang (.ofList (source pieces))).toList := by
  intro h
  have hs : IsSplit .script ("var a = ".toList.map Piece.code ++
      .literal '\x60' "x  \n\ny".toList :: (";\n".toList.map Piece.code ++ [])) :=
    .codes (by decide) (.literal (by decide) (isBody_of_all (by decide))
      (.codes (by decide) .nil))
  have hi := h _ _ hs (.literal '\x60' "x  \n\ny".toList) (by simp) rfl
  revert hi
  decide

end RequestRouting.Minify
