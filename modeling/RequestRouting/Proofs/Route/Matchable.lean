import Mathlib.Data.List.TakeWhile
import RequestRouting.Proofs.Route.Matcher

/-!
# Routes that can be matched

Not every route has a matcher. Its names have to be well-formed, a segment holds one variable at
most, and a catch-all stands at the end only, all of which includes what stands for the rest of the
path behind a prefix. So no text can follow the variable in the last segment of a prefix.
-/

namespace RequestRouting

namespace Pattern

/-- Tokens with a variable for each segment at most, and with nothing behind a catch-all. -/
structure IsSparse (ts : List Token) : Prop where
  final : ∀ t ∈ ts.dropLast, t.isCatchAll = false
  apart : ∀ stretch, stretch <:+: ts → .char '/' ∉ stretch →
    stretch.countP (fun t => !t.isChar) ≤ 1

variable {ts us : List Token}

/-- What is sparse is sparse in front of a place, too. -/
theorem IsSparse.of_append (h : IsSparse (ts ++ us)) : IsSparse ts := by
  refine ⟨fun t ht => ?_, fun stretch hs => ?_⟩
  · refine h.final t ?_
    rw [List.dropLast_append]
    split
    · exact ht
    · exact List.mem_append_left _ (List.dropLast_subset _ ht)
  · exact h.apart stretch (hs.trans (List.prefix_append ts us).isInfix)

/-- What is sparse is sparse behind a place, too. -/
theorem IsSparse.append_of (ts : List Token) (h : IsSparse (ts ++ us)) : IsSparse us := by
  refine ⟨fun t ht => ?_, fun stretch hs => ?_⟩
  · refine h.final t ?_
    rw [List.dropLast_append_of_ne_nil (by rintro rfl; simp at ht)]
    exact List.mem_append_right _ ht
  · exact h.apart stretch (hs.trans (List.suffix_append ts us).isInfix)

theorem countP_eq_zero_of_all {b : List Token} (h : b.all Token.isChar = true) :
    b.countP (fun t => !t.isChar) = 0 := by
  rw [List.countP_eq_zero]
  intro t ht
  simp [List.all_eq_true.mp h t ht]

theorem prefix_takeWhile {α : Type} {p : α → Bool} {l m : List α} (h : l <+: m)
    (hp : ∀ x ∈ l, p x = true) : l <+: m.takeWhile p := by
  obtain ⟨rest, rfl⟩ := h
  rw [List.takeWhile_append_of_pos hp]
  exact List.prefix_append l _

/-- A variable and characters up to the end of its segment, in front of something sparse. -/
theorem isSparse_name_cons {name : List Char} (hn : (Token.name name).isCatchAll = false)
    (hall : (ts.takeWhile (· ≠ .char '/')).all Token.isChar = true)
    (hrest : IsSparse (ts.dropWhile (· ≠ .char '/'))) : IsSparse (.name name :: ts) := by
  have hslash {b : List Token} (hb : .char '/' ∉ b) :
      ∀ t ∈ b, decide (t ≠ .char '/') = true := by
    intro t ht
    exact decide_eq_true fun he => hb (he ▸ ht)
  have hzero {b : List Token} (hb : b <:+: ts.takeWhile (· ≠ .char '/')) :
      b.countP (fun t => !t.isChar) = 0 := by
    refine Nat.le_zero.mp (Nat.le_trans hb.sublist.countP_le ?_)
    rw [countP_eq_zero_of_all hall]
  refine ⟨fun t ht => ?_, fun stretch hs hns => ?_⟩
  · cases hr : ts with
    | nil => simp [hr] at ht
    | cons r more =>
      rw [hr, List.dropLast_cons_cons, List.mem_cons, ← hr] at ht
      rcases ht with rfl | ht
      · exact hn
      · exact isCatchAll_of_mem_segments hall hrest.final t ht
  · rcases List.infix_cons_iff.mp hs with hs | hs
    · rcases List.prefix_cons_iff.mp hs with rfl | ⟨b, rfl, hb⟩
      · simp
      · have hb := prefix_takeWhile hb (hslash fun h => hns (List.mem_cons_of_mem _ h))
        rw [List.countP_cons, hzero hb.isInfix]
        split <;> simp
    · rw [← List.takeWhile_append_dropWhile (p := (· ≠ Token.char '/')) (l := ts)] at hs
      rcases List.infix_append_iff.mp hs with hs | hs | ⟨a, b, rfl, ha, hb⟩
      · rw [hzero hs]
        exact Nat.zero_le 1
      · exact hrest.apart stretch hs hns
      · -- What follows the end of the segment starts with a slash.
        have hnb : .char '/' ∉ b := fun h => hns (List.mem_append_right a h)
        rw [List.countP_append, hzero ha.isInfix, Nat.zero_add]
        exact hrest.apart b hb.isInfix hnb

/-- A pattern is allowed exactly if its tokens are sparse. -/
theorem check_pieces_iff : check (pieces ts) = .ok () ↔ IsSparse ts := by
  induction ts using pieces.induct with
  | case1 =>
    rw [pieces]
    refine iff_of_true rfl ⟨by simp, fun stretch hs _ => ?_⟩
    rw [List.infix_nil.mp hs]
    exact Nat.zero_le 1
  | case2 c rest ih =>
    rw [pieces, check, ih]
    refine ⟨fun h => ⟨fun t ht => ?_, fun stretch hs hns => ?_⟩, fun h => h.append_of [_]⟩
    · cases rest with
      | nil => simp at ht
      | cons r rest =>
        rcases List.mem_cons.mp ht with rfl | ht
        · rfl
        · exact h.final t ht
    · rcases List.infix_cons_iff.mp hs with hs | hs
      · rcases List.prefix_cons_iff.mp hs with rfl | ⟨b, rfl, hb⟩
        · exact Nat.zero_le 1
        · rw [List.countP_cons_of_neg (by simp [Token.isChar])]
          exact h.apart b hb.isInfix fun hm => hns (List.mem_cons_of_mem _ hm)
      · exact h.apart stretch hs hns
  | case3 name rest =>
    rw [pieces, check]
    cases rest with
    | nil =>
      refine iff_of_true rfl ⟨by simp, fun stretch hs _ => ?_⟩
      exact Nat.le_trans hs.sublist.countP_le (by simp [Token.isChar])
    | cons r rest =>
      refine iff_of_false (by simp) fun h => ?_
      have hf := h.final (.name ('*' :: name)) (by simp)
      simp [Token.isCatchAll] at hf
  | case4 name rest hn ih =>
    have hc : (Token.name name).isCatchAll = false := not_isCatchAll_iff.mpr fun n e => hn n e
    rw [pieces.eq_4 _ _ hn, check]
    constructor
    · intro h
      split at h
      · exact isSparse_name_cons hc ‹_› (ih.mp h)
      · cases h
    · intro h
      have hall : (rest.takeWhile (· ≠ .char '/')).all Token.isChar = true := by
        have hp : Token.name name :: rest.takeWhile (· ≠ .char '/') <+: .name name :: rest :=
          List.cons_prefix_cons.mpr ⟨rfl, List.takeWhile_prefix _⟩
        have hone := h.apart _ hp.isInfix (by
          rw [List.mem_cons, not_or]
          exact ⟨by simp, fun hm => by simpa using List.mem_takeWhile_imp hm⟩)
        rw [List.countP_cons_of_pos (by simp [Token.isChar])] at hone
        have hzero := List.countP_eq_zero.mp (Nat.le_zero.mp (Nat.le_of_succ_le_succ hone))
        exact List.all_eq_true.mpr fun t ht => by simpa using hzero t ht
      rw [if_pos hall]
      refine ih.mpr (.append_of (.name name :: rest.takeWhile (· ≠ .char '/')) ?_)
      rwa [List.cons_append, List.takeWhile_append_dropWhile]

/-- The tokens that are grouped into a piece. -/
def Piece.tokens : Piece → List Token
  | char c => [.char c]
  | param name ending => .name name :: ending
  | catchAll name after => .name ('*' :: name) :: after

/-- Grouping tokens loses none of them. -/
theorem flatMap_pieces (ts : List Token) : (pieces ts).flatMap Piece.tokens = ts := by
  induction ts using pieces.induct with
  | case1 => rw [pieces, List.flatMap_nil]
  | case2 c rest ih => rw [pieces, List.flatMap_cons, ih, Piece.tokens, List.singleton_append]
  | case3 name rest => rw [pieces, List.flatMap_singleton, Piece.tokens]
  | case4 name rest hn ih =>
    rw [pieces.eq_4 _ _ hn, List.flatMap_cons, ih, Piece.tokens, List.cons_append,
      List.takeWhile_append_dropWhile]

theorem not_mem_ending {name : List Char} {ending : List Token}
    (h : .param name ending ∈ pieces ts) : .char '/' ∉ ending := by
  induction ts using pieces.induct with
  | case1 => simp [pieces] at h
  | case2 c rest ih =>
    rw [pieces] at h
    exact ih (by simpa using h)
  | case3 name rest => simp [pieces] at h
  | case4 name rest hn ih =>
    rw [pieces.eq_4 _ _ hn] at h
    rcases List.mem_cons.mp h with h | h
    · obtain ⟨-, rfl⟩ := Piece.param.inj h
      exact fun hm => by simpa using List.mem_takeWhile_imp hm
    · exact ih h

/-- A closed pattern ends in a catch-all, or in a variable with text behind it. -/
theorem exists_of_isClosed (h : isClosed (pieces ts) = true) :
    (∃ before name after, ts = before ++ .name ('*' :: name) :: after) ∨
      ∃ before name ending, ts = before ++ .name name :: ending ∧ ending ≠ [] ∧
        .char '/' ∉ ending := by
  have hlast {p : Piece} {front : List Piece} (hr : (pieces ts).reverse = p :: front) :
      ts = front.reverse.flatMap Piece.tokens ++ p.tokens := by
    rw [← flatMap_pieces ts, ← List.reverse_reverse (pieces ts), hr, List.reverse_cons,
      List.flatMap_append, List.flatMap_singleton]
  unfold isClosed at h
  split at h
  · rename_i name after front hr
    exact Or.inl ⟨_, name, after, hlast hr⟩
  · rename_i _ name ending c front hr
    simp only [Bool.and_eq_true, Bool.not_eq_true', List.isEmpty_eq_false_iff] at h
    have hm : .param name ending ∈ pieces ts := by
      rw [← List.mem_reverse, hr]
      exact List.mem_cons_self
    exact Or.inr ⟨_, name, ending, hlast hr, h.1, not_mem_ending hm⟩
  · cases h

/-- The last character of a pattern isn't part of a name. -/
theorem Reads.getLast?_eq {s : List Char} {c : Char} (h : Reads s ts)
    (hl : ts.getLast? = some (.char c)) : s.getLast? = some c ∧ c ≠ '\x7d' := by
  induction h with
  | nil => cases hl
  | @name s name rest ts hr hrest ih =>
    cases ts with
    | nil => cases hl
    | cons t ts =>
      rw [List.getLast?_cons_cons] at hl
      obtain ⟨hlast, hc⟩ := ih hl
      obtain rfl := eq_of_readFullName hr
      cases rest with
      | nil => cases hlast
      | cons d rest => exact ⟨by simpa [List.getLast?_append, List.getLast?_cons] using hlast, hc⟩
  | @char d s ts _ hd hs ih =>
    cases hs with
    | nil =>
      obtain rfl : d = c := by simpa using hl
      exact ⟨rfl, hd⟩
    | name hr hrest =>
      rw [List.getLast?_cons_cons] at hl ⊢
      exact ih hl
    | char ho hc hrest =>
      rw [List.getLast?_cons_cons] at hl ⊢
      exact ih hl

/-- A closed pattern that ends in a name, or that another name is put behind, isn't sparse. -/
theorem not_isSparse_of_isClosed (h : isClosed (pieces ts) = true) (hu : us ≠ [])
    (hn : (∃ name, ts.getLast? = some (.name name)) ∨ ∃ name, us = [.name name]) :
    ¬IsSparse (ts ++ us) := by
  intro hs
  obtain ⟨before, n, after, rfl⟩ | ⟨before, n, ending, rfl, he, hslash⟩ := exists_of_isClosed h
  · have hf := hs.final (.name ('*' :: n)) (by rw [List.dropLast_append_of_ne_nil hu]; simp)
    simp [Token.isCatchAll] at hf
  · obtain ⟨name, hl⟩ | ⟨name, rfl⟩ := hn
    · have hl : ending.getLast? = some (.name name) := by
        rwa [List.getLast?_append_cons, List.getLast?_cons_of_ne_nil he] at hl
      obtain ⟨ys, rfl⟩ := List.getLast?_eq_some_iff.mp hl
      have hone := hs.of_append.apart _ (List.suffix_append before _).isInfix (by simpa using hslash)
      simp [Token.isChar] at hone
    · have hone := hs.apart (.name n :: ending ++ [.name name])
        (by rw [List.append_assoc]; exact (List.suffix_append before _).isInfix)
        (by simpa using hslash)
      simp [Token.isChar] at hone

end Pattern

namespace Route

open Pattern

/-- What stands for the rest of a path behind the path of a prefix route. -/
def rest (r : Route) : List Token :=
  if r.matching = .exact then []
  else (if r.isBounded then [.char '/'] else []) ++ [.name ('*' :: remainder.toList)]

/-- Whether the names of a route are well-formed, and so sparse that it can be matched. -/
def IsMatchable (r : Route) : Prop :=
  ∃ ts, Reads r.path.toList ts ∧ IsSparse (ts ++ r.rest)

variable {r : Route} {m : RouteMatcher}

theorem isMatchable_of_matcher (hm : r.matcher = .ok m) : r.IsMatchable := by
  cases hr : r.matching with
  | exact =>
    obtain ⟨ts, ht, hc, -⟩ := forms_exact hm hr
    refine ⟨ts, ht, ?_⟩
    rw [rest, if_pos hr, List.append_nil]
    exact check_pieces_iff.mp hc
  | startsWith =>
    have hn : r.matching ≠ .exact := by simp [hr]
    cases hb : r.isBounded with
    | false =>
      obtain ⟨ts, ht, -, hc, -⟩ := forms_unbounded hm hr hb
      refine ⟨ts, ht, ?_⟩
      rw [rest, if_neg hn, hb, if_neg Bool.false_ne_true, List.nil_append]
      exact check_pieces_iff.mp hc
    | true =>
      obtain ⟨ts, ht, -, -, hc, -⟩ := forms_bounded hm hr hb
      refine ⟨ts, ht, ?_⟩
      rw [rest, if_neg hn, hb, if_pos rfl, ← List.append_assoc]
      exact check_pieces_iff.mp hc

/-- The last token of a bounded route is a name. -/
theorem exists_getLast?_eq {ts : List Token} (ht : Reads r.path.toList ts)
    (hb : r.isBounded = true) : ∃ name, ts.getLast? = some (.name name) := by
  obtain ⟨front, hp⟩ := Text.endsWith_iff.mp hb
  have hlast : r.path.toList.getLast? = some '\x7d' := by
    rw [hp, String.toList_append]
    exact List.getLast?_append_of_ne_nil _ (by decide)
  cases hl : ts.getLast? with
  | none =>
    obtain rfl := List.getLast?_eq_none_iff.mp hl
    generalize r.path.toList = path at ht hlast
    cases ht
    cases hlast
  | some t =>
    cases t with
    | name name => exact ⟨name, rfl⟩
    | char c =>
      obtain ⟨hc, hne⟩ := ht.getLast?_eq hl
      exact absurd (Option.some.inj (hc.symm.trans hlast)) hne

/-- The rest of a path can go on where a prefix route ends that is matchable. -/
theorem isClosed_eq_false {ts : List Token} (ht : Reads r.path.toList ts)
    (hr : r.matching = .startsWith) (hs : IsSparse (ts ++ r.rest)) :
    isClosed (pieces ts) = false := by
  rw [rest, if_neg (by simp [hr])] at hs
  rw [Bool.eq_false_iff]
  intro hc
  refine not_isSparse_of_isClosed hc (by simp) ?_ hs
  cases hb : r.isBounded with
  | false => exact Or.inr ⟨_, rfl⟩
  | true => exact Or.inl (exists_getLast?_eq ht hb)

theorem read_eq_ok_of_isSparse {text : String} {ts : List Token} (ht : Reads text.toList ts)
    (hs : IsSparse ts) : Pattern.read text = .ok (pieces ts) :=
  read_eq_ok.mpr ⟨ts, ht, check_pieces_iff.mpr hs, rfl⟩

theorem exists_mapM_eq_ok {α β ε : Type} {f : α → Except ε β} {l : List α}
    (h : ∀ x ∈ l, ∃ y, f x = .ok y) : ∃ ys, l.mapM f = .ok ys := by
  induction l with
  | nil => exact ⟨[], rfl⟩
  | cons x l ih =>
    obtain ⟨y, hy⟩ := h x List.mem_cons_self
    obtain ⟨ys, hys⟩ := ih fun x hx => h x (List.mem_cons_of_mem _ hx)
    exact ⟨y :: ys, by rw [List.mapM_cons, hy, hys]; rfl⟩

/-- All patterns of a matchable route can be read. -/
theorem exists_read_of_mem_patterns {ts : List Token} (ht : Reads r.path.toList ts)
    (hs : IsSparse (ts ++ r.rest)) :
    ∀ text ∈ r.patterns, ∃ form, Pattern.read text = .ok form := by
  have hpath : ∃ form, Pattern.read r.path = .ok form := ⟨_, read_eq_ok_of_isSparse ht hs.of_append⟩
  cases hr : r.matching with
  | exact => simpa [patterns, hr] using hpath
  | startsWith =>
    rw [rest, if_neg (by simp [hr])] at hs
    cases hb : r.isBounded with
    | false =>
      rw [hb, if_neg Bool.false_ne_true, List.nil_append] at hs
      have hrest : Reads (r.path ++ catchAll).toList (ts ++ [.name ('*' :: remainder.toList)]) := by
        rw [String.toList_append]
        exact ht.append reads_catchAll
      have hb' : Text.endsWith "\x7d" r.path = false := hb
      simp only [patterns, hr, hb', Bool.false_eq_true, if_false, List.forall_mem_cons]
      exact ⟨hpath, ⟨_, read_eq_ok_of_isSparse hrest hs⟩, by simp⟩
    | true =>
      rw [hb, if_pos rfl, ← List.append_assoc] at hs
      have hslash : Reads (r.path ++ "/").toList (ts ++ [.char '/']) := by
        rw [String.toList_append]
        exact ht.append (.char (by decide) (by decide) .nil)
      have hrest : Reads (r.path ++ "/" ++ catchAll).toList
          (ts ++ [.char '/'] ++ [.name ('*' :: remainder.toList)]) := by
        rw [String.toList_append]
        exact hslash.append reads_catchAll
      have hb' : Text.endsWith "\x7d" r.path = true := hb
      simp only [patterns, hr, hb', if_true, List.forall_mem_cons]
      exact ⟨hpath, ⟨_, read_eq_ok_of_isSparse hslash hs.of_append⟩,
        ⟨_, read_eq_ok_of_isSparse hrest hs⟩, by simp⟩

/-- A route has a matcher exactly if its names are well-formed, no segment holds two variables, and
nothing follows a catch-all, where a catch-all stands for the rest of the path behind a prefix. -/
theorem exists_matcher_iff : (∃ m, r.matcher = .ok m) ↔ r.IsMatchable := by
  refine ⟨fun ⟨m, hm⟩ => isMatchable_of_matcher hm, ?_⟩
  rintro ⟨ts, ht, hs⟩
  obtain ⟨forms, hf⟩ := exists_mapM_eq_ok (exists_read_of_mem_patterns ht hs)
  have hc : (r.isPrefixRoute && isClosed (pieces ts)) = false := by
    cases hr : r.matching with
    | exact => simp [isPrefixRoute, hr]
    | startsWith => rw [isClosed_eq_false ht hr hs, Bool.and_false]
  refine ⟨⟨forms⟩, ?_⟩
  simp [matcher, read_eq_ok_of_isSparse ht hs.of_append, hc, hf, bind, Except.bind, pure,
    Except.pure, Except.mapError]

instance (r : Route) (path : String) : Decidable (r.Covers path) :=
  decidable_of_iff (r.matcher.toOption.any (·.accepts path) = true) <| by
    unfold Covers
    cases r.matcher <;> simp [Except.toOption]

instance (r : Route) : Decidable r.IsMatchable :=
  decidable_of_iff (r.matcher.toOption.isSome = true) <| by
    rw [← exists_matcher_iff]
    cases r.matcher <;> simp [Except.toOption]

/-- The paths of a route, matchable or not: what fills its path, and for a prefix route anything that
may follow. -/
def IsPath (r : Route) (path : String) : Prop :=
  ∃ ts lead tail us vs, Reads r.path.toList ts ∧ path.toList = lead ++ tail ∧ Fills ts lead us ∧
    if r.matching = .exact then tail = [] else Tail r.isBounded tail vs

/-- The paths of an exact route are among those of the prefix route. -/
theorem IsPath.startsWith {template path : String} (h : IsPath ⟨template, .exact⟩ path) :
    IsPath ⟨template, .startsWith⟩ path := by
  obtain ⟨ts, lead, tail, us, vs, ht, hp, hl, htail⟩ := h
  obtain rfl : tail = [] := htail
  exact ⟨ts, lead, [], us, [], ht, hp, hl, .nothing _⟩

/-- A route that can be matched covers its paths, and one that can't covers none. -/
theorem covers_iff_isPath {path : String} :
    r.Covers path ↔ r.IsMatchable ∧ r.IsPath path := by
  rw [← exists_matcher_iff]
  have hcovers {m : RouteMatcher} (hm : r.matcher = .ok m) : r.Covers path ↔ r.IsPath path := by
    cases hr : r.matching with
    | exact =>
      obtain ⟨ts, ht, -, hfill⟩ := covers_exact hm hr
      rw [hfill]
      constructor
      · rintro ⟨values, h⟩
        exact ⟨ts, path.toList, [], values, [], ht, by simp, h, by simp [hr]⟩
      · rintro ⟨us, lead, tail, values, vs, hu, hp, h, htail⟩
        obtain rfl : tail = [] := by simpa [hr] using htail
        rw [List.append_nil] at hp
        exact ⟨values, hp ▸ hu.unique ht ▸ h⟩
    | startsWith =>
      obtain ⟨ts, ht, hfill⟩ := accepts_prefix hm hr
      rw [covers_iff hm, hfill]
      constructor
      · rintro ⟨lead, tail, us, vs, hp, h, htail⟩
        exact ⟨ts, lead, tail, us, vs, ht, hp, h, by simpa [hr] using htail⟩
      · rintro ⟨us, lead, tail, values, vs, hu, hp, h, htail⟩
        exact ⟨lead, tail, values, vs, hp, hu.unique ht ▸ h, by simpa [hr] using htail⟩
  constructor
  · rintro ⟨m, hm, ha⟩
    exact ⟨⟨m, hm⟩, (hcovers hm).mp ⟨m, hm, ha⟩⟩
  · rintro ⟨⟨m, hm⟩, h⟩
    exact (hcovers hm).mpr h

end Route

end RequestRouting
