import RequestRouting.Proofs.Route.Collapse
import RequestRouting.Proofs.Route.Matcher

/-!
# Routes below a prefix

A route is put below a prefix that holds no braces by prepending the prefix to its path. Its
patterns then begin with the characters of the prefix, so it matches what it matched before, with
the prefix in front, and yields the same values.
-/

namespace RequestRouting

namespace Pattern

/-- The pieces that stand for the characters of a text. -/
def fixed (lead : List Char) : List Piece := lead.map .char

variable {lead : List Char}

theorem tokens_append (ho : '\x7b' ∉ lead) (hc : '\x7d' ∉ lead) (s : List Char) :
    tokens (lead ++ s) = (tokens s).map (lead.map .char ++ ·) := by
  induction lead with
  | nil => simp
  | cons c lead ih =>
    rw [List.mem_cons, not_or] at ho hc
    rw [List.cons_append, tokens, if_neg (Ne.symm ho.1), if_neg (Ne.symm hc.1), ih ho.2 hc.2,
      Option.map_map]
    rfl

theorem pieces_append (lead : List Char) (ts : List Token) :
    pieces (lead.map .char ++ ts) = fixed lead ++ pieces ts := by
  induction lead with
  | nil => rfl
  | cons c lead ih =>
    rw [List.map_cons, List.cons_append, pieces, ih]
    rfl

theorem check_append (lead : List Char) (ps : List Piece) :
    check (fixed lead ++ ps) = check ps := by
  induction lead with
  | nil => rfl
  | cons c lead ih => exact ih

/-- A pattern with a text in front is read as before, the characters of the text apart. -/
theorem read_append {lead : String} (ho : '\x7b' ∉ lead.toList) (hc : '\x7d' ∉ lead.toList)
    (text : String) : read (lead ++ text) = (read text).map (fixed lead.toList ++ ·) := by
  unfold read
  rw [String.toList_append, tokens_append ho hc]
  cases tokens text.toList with
  | none => rfl
  | some ts =>
    simp only [Option.map_some, pieces_append, check_append]
    cases check (pieces ts) with
    | error e => rfl
    | ok _ => rfl

/-- Whether a pattern can go on doesn't depend on the text in front of its first character. -/
theorem isClosed_append (lead : List Char) (c : Char) (ps : List Piece) :
    isClosed (fixed lead ++ .char c :: ps) = isClosed (.char c :: ps) := by
  unfold isClosed
  rw [List.reverse_append, List.reverse_cons]
  -- The last two pieces decide, and both are found before the text in front is reached.
  cases ps.reverse with
  | nil => rfl
  | cons last before =>
    cases before with
    | nil => cases last <;> rfl
    | cons other _ => cases last <;> cases other <;> rfl

/-- The pieces of a pattern that starts with a slash do so, too. -/
theorem eq_cons_of_read {text : String} {form : List Piece} (h : read text = .ok form)
    (hs : Text.startsWith "/" text = true) : ∃ rest, form = .char '/' :: rest := by
  obtain ⟨ts, ht, -, rfl⟩ := read_eq_ok.mp h
  obtain ⟨rest, rfl⟩ := Text.startsWith_iff.mp hs
  rw [String.toList_append] at ht
  cases ht with
  | char _ _ h =>
    rw [pieces]
    exact ⟨_, rfl⟩

theorem resolve?_fixed (lead : List Char) (form : List Piece) (path : List Char) :
    resolve? (fixed lead ++ form) (lead ++ path) = resolve? form path := by
  induction lead with
  | nil => rfl
  | cons c lead ih =>
    change (if c = c then resolve? (fixed lead ++ form) (lead ++ path) else none) = _
    rw [if_pos rfl, ih]

/-- What a pattern with a text in front matches has the text in front, too. -/
theorem exists_of_resolve?_fixed {lead : List Char} {form : List Piece} {path : List Char}
    {values : List (String × String)} (h : resolve? (fixed lead ++ form) path = some values) :
    ∃ rest, path = lead ++ rest ∧ resolve? form rest = some values := by
  induction lead generalizing path with
  | nil => exact ⟨path, rfl, h⟩
  | cons c lead ih =>
    cases path with
    | nil => cases h
    | cons d path =>
      change (if c = d then resolve? (fixed lead ++ form) path else none) = _ at h
      split at h
      · rename_i hcd
        obtain ⟨rest, rfl, hrest⟩ := ih h
        exact ⟨rest, by rw [hcd]; rfl, hrest⟩
      · cases h

/-- Patterns with a text in front are read as before, the characters of the text apart. -/
theorem mapM_read_append {lead : String} (ho : '\x7b' ∉ lead.toList) (hc : '\x7d' ∉ lead.toList)
    (texts : List String) : (texts.map (lead ++ ·)).mapM read =
      (texts.mapM read).map (·.map (fixed lead.toList ++ ·)) := by
  induction texts with
  | nil => rfl
  | cons text texts ih =>
    rw [List.map_cons, List.mapM_cons, List.mapM_cons, read_append ho hc, ih]
    cases read text with
    | error e => rfl
    | ok form => cases texts.mapM read <;> rfl

end Pattern

open Pattern (fixed)

namespace RouteMatcher

/-- The matcher of a route below a prefix. -/
def under (m : RouteMatcher) (a : String) : RouteMatcher where
  forms := m.forms.map (fixed a.toList ++ ·)

variable {m : RouteMatcher} {a path : String} {values : List (String × String)}

/-- Below a prefix, the same values are yielded as without the prefix. -/
@[simp] theorem resolve?_under (m : RouteMatcher) (a path : String) :
    (m.under a).resolve? (a ++ path) = m.resolve? path := by
  unfold resolve? under
  rw [String.toList_append, List.findSome?_map]
  exact congrArg (List.findSome? · m.forms)
    (funext fun form => Pattern.resolve?_fixed a.toList form path.toList)

@[simp] theorem accepts_under (m : RouteMatcher) (a path : String) :
    (m.under a).accepts (a ++ path) = m.accepts path := by
  rw [accepts, resolve?_under, accepts]

/-- Only paths with the prefix are matched. -/
theorem exists_of_accepts_under (h : (m.under a).accepts path = true) :
    ∃ rest, path = a ++ rest ∧ m.accepts rest = true := by
  obtain ⟨form, hform, values, hv⟩ := accepts_iff.mp h
  obtain ⟨form, hmem, rfl⟩ := List.mem_map.mp hform
  obtain ⟨rest, hpath, hv⟩ := Pattern.exists_of_resolve?_fixed hv
  refine ⟨.ofList rest, String.ext (by simpa using hpath), accepts_iff.mpr ?_⟩
  exact ⟨form, hmem, values, by simpa using hv⟩

end RouteMatcher

namespace Route

/-- The route below a prefix. -/
def under (r : Route) (a : String) : Route := { r with path := a ++ r.path }

variable {r : Route} {a : String}

@[simp] theorem path_under (r : Route) (a : String) : (r.under a).path = a ++ r.path := rfl

@[simp] theorem under_inj {r r' : Route} : r.under a = r'.under a ↔ r = r' := by
  cases r
  cases r'
  simp [under]

@[simp] theorem isPrefixRoute_under (r : Route) (a : String) :
    (r.under a).isPrefixRoute = r.isPrefixRoute := rfl

/-- A text with a slash in front is no shorter than a tail of one character. -/
theorem length_le_of_startsWith {tail text : String} (ht : tail.toList.length = 1)
    (hs : Text.startsWith "/" text = true) : tail.toList.length ≤ text.toList.length := by
  obtain ⟨rest, rfl⟩ := Text.startsWith_iff.mp hs
  simp [ht]

theorem patterns_under (hs : Text.startsWith "/" r.path = true) (a : String) :
    (r.under a).patterns = r.patterns.map (a ++ ·) := by
  unfold patterns under
  cases r.matching with
  | exact => rfl
  | startsWith =>
    dsimp only
    rw [Text.endsWith_append (length_le_of_startsWith rfl hs)]
    split <;> simp [String.append_assoc]

/-- A route has a matcher below a prefix exactly if it has one. -/
theorem toOption_matcher_under (ho : '\x7b' ∉ a.toList) (hc : '\x7d' ∉ a.toList)
    (hs : Text.startsWith "/" r.path = true) :
    (r.under a).matcher.toOption = r.matcher.toOption.map (·.under a) := by
  unfold matcher
  rw [patterns_under hs, path_under, isPrefixRoute_under, Pattern.read_append ho hc,
    Pattern.mapM_read_append ho hc]
  cases hr : Pattern.read r.path with
  | error e => rfl
  | ok form =>
    obtain ⟨rest, rfl⟩ := Pattern.eq_cons_of_read hr hs
    simp only [Except.map, bind, Except.bind, Pattern.isClosed_append]
    split
    · rfl
    · cases r.patterns.mapM Pattern.read <;> rfl

/-- The matcher of a route below a prefix is the one of the route, below the prefix. -/
theorem matcher_under_eq_ok (ho : '\x7b' ∉ a.toList) (hc : '\x7d' ∉ a.toList)
    (hs : Text.startsWith "/" r.path = true) {m : RouteMatcher} :
    (r.under a).matcher = .ok m ↔ ∃ m', r.matcher = .ok m' ∧ m = m'.under a := by
  have h := toOption_matcher_under ho hc hs
  generalize (r.under a).matcher = below at h ⊢
  cases below with
  | error e =>
    cases hm : r.matcher with
    | error _ => simp
    | ok m => simp [hm, Except.toOption] at h
  | ok m =>
    cases hm : r.matcher with
    | error _ => simp [hm, Except.toOption] at h
    | ok m' =>
      obtain rfl : m = m'.under a := by simpa [hm, Except.toOption] using h
      simp [eq_comm]

theorem startsWith_of_mem_patterns (hs : Text.startsWith "/" r.path = true) {text : String}
    (ht : text ∈ r.patterns) : Text.startsWith "/" text = true := by
  have hlead := Text.startsWith_append hs
  unfold patterns at ht
  split at ht
  · rwa [List.mem_singleton.mp ht]
  · split at ht
    · simp only [List.mem_cons, List.not_mem_nil, or_false] at ht
      rcases ht with rfl | rfl | rfl
      · exact hs
      · exact hlead _
      · rw [String.append_assoc]
        exact hlead _
    · simp only [List.mem_cons, List.not_mem_nil, or_false] at ht
      rcases ht with rfl | rfl
      · exact hs
      · exact hlead _

/-- What a route matches starts with a slash, as the route does. -/
theorem startsWith_of_accepts {m : RouteMatcher} {path : String} (hm : r.matcher = .ok m)
    (hs : Text.startsWith "/" r.path = true) (h : m.accepts path = true) :
    Text.startsWith "/" path = true := by
  obtain ⟨form, hform, values, hv⟩ := RouteMatcher.accepts_iff.mp h
  obtain ⟨i, rfl⟩ := List.mem_iff_get.mp hform
  have hread := forall₂_forms hm
  have hi : (i : Nat) < r.patterns.length := by rw [hread.length_eq]; exact i.isLt
  have htext : Text.startsWith "/" r.patterns[i] = true :=
    startsWith_of_mem_patterns hs (List.getElem_mem hi)
  obtain ⟨rest, hrest⟩ := Pattern.eq_cons_of_read (hread.get hi i.isLt) htext
  change Pattern.resolve? (m.forms.get i) path.toList = some values at hv
  rw [hrest] at hv
  cases hpath : path.toList with
  | nil =>
    rw [hpath] at hv
    cases hv
  | cons c tail =>
    rw [hpath, Pattern.resolve?] at hv
    split at hv
    · rename_i hc
      exact Text.startsWith_iff.mpr ⟨.ofList tail, String.ext (by simp [hpath, ← hc])⟩
    · cases hv

/-- Routes have the same variables below a prefix. -/
theorem keys_under (ho : '\x7b' ∉ a.toList) (hc : '\x7d' ∉ a.toList) (r : Route) :
    (r.under a).keys = r.keys := by
  unfold keys
  rw [path_under, String.toList_append, Pattern.tokens_append ho hc]
  cases Pattern.tokens r.path.toList with
  | none => rfl
  | some ts =>
    have hchars : (a.toList.map Pattern.Token.char).filterMap Pattern.Token.key? = [] := by
      rw [List.filterMap_map]
      exact List.filterMap_eq_nil_iff.mpr fun _ _ => rfl
    rw [Option.map_some, Option.getD_some, Option.getD_some, List.filterMap_append, hchars,
      List.nil_append]

theorem variableNames_under (ho : '\x7b' ∉ a.toList) (r : Route) :
    (r.under a).variableNames = r.variableNames := by
  rw [variableNames, path_under, Text.drop_pieces_append ho, variableNames]

theorem literals_append {lead : List Char} (ho : '\x7b' ∉ lead) (hc : '\x7d' ∉ lead)
    (s : List Char) : literals 0 (lead ++ s) = lead.length + literals 0 s := by
  induction lead with
  | nil => simp
  | cons c lead ih =>
    rw [List.mem_cons, not_or] at ho hc
    rw [List.cons_append, literals, if_neg (Ne.symm ho.1), if_neg (Ne.symm hc.1), if_pos rfl,
      ih ho.2 hc.2, List.length_cons]
    omega

theorem literalLength_under (ho : '\x7b' ∉ a.toList) (hc : '\x7d' ∉ a.toList) (r : Route) :
    (r.under a).literalLength = a.toList.length + r.literalLength := by
  rw [literalLength, path_under, String.toList_append, literals_append ho hc, literalLength]

@[simp] theorem text_under (r : Route) (a : String) : (r.under a).text = a ++ r.text := by
  unfold text under
  cases r.matching with
  | exact => rfl
  | startsWith => exact String.append_assoc

/-- A text without braces has no part in the pairs behind it. -/
theorem Paired.append {lead s : List Char} {names : List String} (ho : '\x7b' ∉ lead)
    (hc : '\x7d' ∉ lead) (h : Paired s names) : Paired (lead ++ s) names := by
  induction lead with
  | nil => exact h
  | cons c lead ih =>
    rw [List.mem_cons, not_or] at ho hc
    exact .literal (Ne.symm ho.1) (Ne.symm hc.1) (ih ho.2 hc.2)

theorem IsTemplate.append {path : String} (h : IsTemplate path) (ho : '\x7b' ∉ a.toList)
    (hc : '\x7d' ∉ a.toList) (hs : Text.startsWith "/" a = true) : IsTemplate (a ++ path) := by
  obtain ⟨names, hp⟩ := h.paired
  refine ⟨by simp [h.ne_empty], Text.startsWith_iff.mp (Text.startsWith_append hs path), names, ?_⟩
  rw [String.toList_append]
  exact hp.append ho hc

theorem unstarred_append {text : String} (h : text ≠ "") (a : String) :
    unstarred (a ++ text) = a ++ unstarred text := by
  have hlength : "*".toList.length ≤ text.toList.length :=
    List.length_pos_iff.mpr fun he => h (String.toList_eq_nil_iff.mp he)
  rw [unstarred, unstarred, Text.dropTail?_append hlength]
  cases Text.dropTail? "*" text <;> rfl

/-- A route that is read with a prefix in front is the route below the prefix. -/
theorem parse_append {key : String} (ho : '\x7b' ∉ a.toList) (hc : '\x7d' ∉ a.toList)
    (hs : Text.startsWith "/" a = true) (h : parse key = .ok r) :
    parse (a ++ key) = .ok (r.under a) := by
  obtain ⟨htemplate, hpath, htext⟩ := parse_eq_ok_iff.mp h
  have hkey : key ≠ "" := by
    rintro rfl
    exact htemplate.ne_empty rfl
  rw [parse_eq_ok_iff, unstarred_append hkey, path_under, text_under, hpath, htext]
  exact ⟨htemplate.append ho hc hs, rfl, rfl⟩

end Route

end RequestRouting
