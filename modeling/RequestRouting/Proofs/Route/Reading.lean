import Mathlib.Algebra.Ring.Nat
import Mathlib.Data.List.Basic
import RequestRouting.Proofs.Text.Pieces
import RequestRouting.Route.Basic

/-!
# How routes are read

A text is a route if what is left of it without a star at its end is a template: it starts with a
slash, and its braces form pairs around names. The text, the names and the literals of a route are
found by three scans of their own, which agree on every route that is read.
-/

namespace RequestRouting.Route

variable {path text : String} {matching : Matching} {r : Route} {name s rest : List Char}
  {values : List String}

/-- Whether the braces of a text form pairs around names that aren't empty and hold no braces
themselves, and which names these are, in order. -/
inductive Paired : List Char → List String → Prop where
  | nil : Paired [] []
  | literal {c : Char} {s : List Char} {names : List String} (ho : c ≠ '\x7b') (hc : c ≠ '\x7d')
      (h : Paired s names) : Paired (c :: s) names
  | named {name s : List Char} {names : List String} (hn : name ≠ []) (ho : '\x7b' ∉ name)
      (hc : '\x7d' ∉ name) (h : Paired s names) :
      Paired ('\x7b' :: (name ++ '\x7d' :: s)) (.ofList name :: names)

/-- What a path must be to make a route. -/
structure IsTemplate (path : String) : Prop where
  ne_empty : path ≠ ""
  slash : ∃ rest, path = "/" ++ rest
  paired : ∃ names, Paired path.toList names

/-- The text without the star at its end, if there's one. -/
def unstarred (text : String) : String := (Text.dropTail? "*" text).getD text

/-! Which texts pass the scan for pairs. -/

theorem balanced_named_iff (hc : '\x7d' ∉ name) :
    balanced .named (name ++ '\x7d' :: rest) = true ↔
      '\x7b' ∉ name ∧ balanced .outside rest = true := by
  induction name with
  | nil => simp [balanced]
  | cons c name ih =>
    obtain ⟨hfirst, hname⟩ := not_or.mp (mt List.mem_cons.mpr hc)
    by_cases ho : c = '\x7b'
    · simp [balanced, ho]
    · simp [balanced, ho, Ne.symm ho, Ne.symm hfirst, ih hname]

/-- Behind an opening brace there must be a name. -/
theorem balanced_opened_iff (hc : '\x7d' ∉ name) :
    balanced .opened (name ++ '\x7d' :: rest) = true ↔
      name ≠ [] ∧ '\x7b' ∉ name ∧ balanced .outside rest = true := by
  cases name with
  | nil => simp [balanced]
  | cons c name =>
    obtain ⟨hfirst, hname⟩ := not_or.mp (mt List.mem_cons.mpr hc)
    by_cases ho : c = '\x7b'
    · simp [balanced, ho]
    · simp [balanced, ho, Ne.symm ho, Ne.symm hfirst, balanced_named_iff hname]

/-- An opening brace must be followed by a closing one. -/
theorem mem_of_balanced {scan : Scan} (hs : scan ≠ .outside) (h : balanced scan s = true) :
    '\x7d' ∈ s := by
  induction s generalizing scan with
  | nil => cases scan <;> simp_all [balanced]
  | cons c s ih =>
    by_cases hc : c = '\x7d'
    · simp [hc]
    · have hrest : balanced .named s = true := by
        by_cases ho : c = '\x7b' <;> cases scan <;> simp_all [balanced]
      exact List.mem_cons_of_mem _ (ih (by simp) hrest)

theorem Paired.balanced (h : Paired s values) : balanced .outside s = true := by
  induction h with
  | nil => rfl
  | literal ho hc _ ih => simpa [Route.balanced, ho, hc] using ih
  | named hn ho hc _ ih => exact (balanced_opened_iff hc).mpr ⟨hn, ho, ih⟩

/-- A text passes the scan exactly if its braces form pairs. -/
theorem balanced_iff : balanced .outside s = true ↔ ∃ names, Paired s names := by
  refine ⟨fun h => ?_, fun ⟨_, h⟩ => h.balanced⟩
  -- The text that goes on behind a variable is shorter, but no tail that the scan recurses on.
  induction hl : s.length using Nat.strongRecOn generalizing s with
  | _ n ih =>
    cases s with
    | nil => exact ⟨[], .nil⟩
    | cons c s =>
      rw [List.length_cons] at hl
      by_cases ho : c = '\x7b'
      · subst ho
        have hopened : balanced .opened s = true := h
        cases hcut : Text.Chars.cut? '\x7d' s with
        | none => exact absurd (mem_of_balanced (by simp) hopened) (Text.Chars.not_mem_of_cut? hcut)
        | some cut =>
          obtain ⟨name, rest⟩ := cut
          have hc := Text.Chars.not_mem_of_cut?_eq_some hcut
          obtain rfl := Text.Chars.eq_of_cut? hcut
          obtain ⟨hn, ho, hrest⟩ := (balanced_opened_iff hc).mp hopened
          rw [List.length_append, List.length_cons] at hl
          obtain ⟨names, hp⟩ := ih rest.length (by omega) hrest rfl
          exact ⟨_, .named hn ho hc hp⟩
      · have hc : c ≠ '\x7d' := by
          rintro rfl
          simp [balanced] at h
        have hrest : balanced .outside s = true := by simpa [balanced, ho, hc] using h
        obtain ⟨names, hp⟩ := ih s.length (by omega) hrest rfl
        exact ⟨names, .literal ho hc hp⟩

/-! What the other scans find in a text that passes. -/

/-- The names that are found by splitting a text at the opening braces. -/
def names (s : List Char) : List String :=
  ((Text.Chars.pieces '\x7b' s).drop 1).filterMap fun piece =>
    (Text.Chars.cut? '\x7d' piece).map fun cut => .ofList cut.1

theorem variableNames_eq (r : Route) : r.variableNames = names r.path.toList := by
  rw [variableNames, Text.pieces, ← List.map_drop, List.filterMap_map, names]
  refine List.filterMap_congr fun piece _ => ?_
  simp [Text.cut?, Function.comp_def]

theorem names_literal {c : Char} (ho : c ≠ '\x7b') (s : List Char) : names (c :: s) = names s := by
  rw [names, ← List.singleton_append, Text.Chars.drop_pieces_append (by simpa using Ne.symm ho),
    names]

theorem names_named (ho : '\x7b' ∉ name) (hc : '\x7d' ∉ name) (rest : List Char) :
    names ('\x7b' :: (name ++ '\x7d' :: rest)) = .ofList name :: names rest := by
  -- The first piece begins with the name and its closing brace.
  have hlead : '\x7b' ∉ name ++ ['\x7d'] := List.not_mem_append ho (by decide)
  obtain ⟨first, hfirst⟩ := Text.Chars.exists_pieces_append hlead rest
  rw [List.append_assoc, List.singleton_append, List.append_assoc, List.singleton_append] at hfirst
  rw [names, Text.Chars.pieces, if_pos rfl, List.drop_one, List.tail_cons, hfirst,
    List.filterMap_cons, Text.Chars.cut?_append hc]
  rfl

theorem Paired.names_eq (h : Paired s values) : names s = values := by
  induction h with
  | nil => rfl
  | literal ho _ _ ih => rw [names_literal ho, ih]
  | named _ ho hc _ ih => rw [names_named ho hc, ih]

/-- Nothing in a name counts as a literal. -/
theorem literals_name (ho : '\x7b' ∉ name) (hc : '\x7d' ∉ name) (rest : List Char) :
    literals 1 (name ++ '\x7d' :: rest) = literals 0 rest := by
  induction name with
  | nil => rfl
  | cons c name ih =>
    rw [List.mem_cons, not_or] at ho hc
    rw [List.cons_append, literals, if_neg (Ne.symm ho.1), if_neg (Ne.symm hc.1),
      if_neg Nat.one_ne_zero, ih ho.2 hc.2, Nat.zero_add]

/-- Every character is a literal, in a name, or a brace around one. -/
theorem Paired.length_eq (h : Paired s values) :
    literals 0 s + (values.map (·.length + 2)).sum = s.length := by
  induction h with
  | nil => rfl
  | literal ho hc _ ih =>
    rw [literals, if_neg ho, if_neg hc, if_pos rfl, List.length_cons, ← ih]
    omega
  | named _ ho hc _ ih =>
    rw [literals, if_pos rfl, literals_name ho hc, List.map_cons, List.sum_cons, List.length_cons,
      List.length_append, List.length_cons, ← ih, String.length_ofList]
    omega

/-! Which texts are read. -/

theorem ofPath_eq_ok_iff :
    ofPath path matching = .ok r ↔ IsTemplate path ∧ r = ⟨path, matching⟩ := by
  have hiff : IsTemplate path ↔ path.isEmpty = false ∧ Text.startsWith "/" path = true ∧
      balanced .outside path.toList = true := by
    rw [Text.startsWith_iff, balanced_iff]
    constructor
    · rintro ⟨hn, hs, hp⟩
      exact ⟨by simpa using hn, hs, hp⟩
    · rintro ⟨hn, hs, hp⟩
      exact ⟨by simpa using hn, hs, hp⟩
  rw [hiff, ofPath]
  cases path.isEmpty <;> cases Text.startsWith "/" path <;>
    cases balanced .outside path.toList <;> simp [eq_comm]

theorem eq_of_ofPath (h : ofPath path matching = .ok r) : r = ⟨path, matching⟩ :=
  (ofPath_eq_ok_iff.mp h).2

/-- Routes with the same path are told apart by their texts. -/
theorem eq_iff_text {r r' : Route} : r = r' ↔ r.path = r'.path ∧ r.text = r'.text := by
  refine ⟨fun h => h ▸ ⟨rfl, rfl⟩, fun ⟨hpath, htext⟩ => ?_⟩
  obtain ⟨path, matching⟩ := r
  obtain ⟨path', matching'⟩ := r'
  obtain rfl : path = path' := hpath
  have hstar : path ++ "*" ≠ path := fun h => by simpa using congrArg String.length h
  cases matching with
  | exact =>
    cases matching' with
    | exact => rfl
    | startsWith => exact absurd htext.symm hstar
  | startsWith =>
    cases matching' with
    | exact => exact absurd htext hstar
    | startsWith => rfl

theorem exists_unstarred (text : String) :
    ∃ r : Route, r.path = unstarred text ∧ r.text = text := by
  rw [unstarred]
  cases hd : Text.dropTail? "*" text with
  | none => exact ⟨⟨text, .exact⟩, rfl, rfl⟩
  | some path => exact ⟨⟨path, .startsWith⟩, rfl, (Text.dropTail?_eq_some.mp hd).symm⟩

/-- A text is read if there's a template in front of its star, and as the route that has both. -/
theorem parse_eq_ok_iff : parse text = .ok r ↔
    IsTemplate (unstarred text) ∧ r.path = unstarred text ∧ r.text = text := by
  rw [parse, unstarred]
  cases hd : Text.dropTail? "*" text with
  | none => exact ofPath_eq_ok_iff.trans (and_congr_right fun _ => eq_iff_text)
  | some path =>
    obtain rfl := Text.dropTail?_eq_some.mp hd
    by_cases hn : path = ""
    · exact iff_of_false (by simp [hn]) fun h => h.1.ne_empty hn
    · have hne : path.isEmpty = false := by simpa using hn
      simp only [hne, Option.getD_some]
      exact ofPath_eq_ok_iff.trans (and_congr_right fun _ => eq_iff_text)

/-- A route is read from its own text. -/
theorem text_of_parse (h : parse text = .ok r) : r.text = text := (parse_eq_ok_iff.mp h).2.2

theorem startsWith_of_parse (h : parse text = .ok r) : Text.startsWith "/" r.path = true := by
  obtain ⟨htemplate, hpath, -⟩ := parse_eq_ok_iff.mp h
  rw [hpath, Text.startsWith_iff]
  exact htemplate.slash

/-- A text is read as a route if and only if what is in front of its star is a template. The text of
the route is the one it's read from, its variables are the names between the braces of its path, in
order, and each character of its path is a literal, in one of these names, or a brace around it. -/
theorem parse_consistent (text : String) :
    ((∃ r, parse text = .ok r) ↔ IsTemplate (unstarred text)) ∧
    ∀ r, parse text = .ok r → r.path = unstarred text ∧ r.text = text ∧
      (∀ names, Paired r.path.toList names ↔ r.variableNames = names) ∧
      r.literalLength + (r.variableNames.map (·.length + 2)).sum = r.path.length := by
  constructor
  · obtain ⟨r, hpath, htext⟩ := exists_unstarred text
    refine ⟨fun ⟨_, h⟩ => (parse_eq_ok_iff.mp h).1, fun h => ⟨r, ?_⟩⟩
    exact parse_eq_ok_iff.mpr ⟨h, hpath, htext⟩
  · intro r h
    obtain ⟨htemplate, hpath, htext⟩ := parse_eq_ok_iff.mp h
    obtain ⟨values, hvalues⟩ := htemplate.paired
    rw [← hpath] at hvalues
    have hnames : r.variableNames = values := (variableNames_eq r).trans hvalues.names_eq
    refine ⟨hpath, htext, fun names => ⟨fun hp => ?_, ?_⟩, ?_⟩
    · rw [variableNames_eq, hp.names_eq]
    · rintro rfl
      rwa [hnames]
    · rw [hnames, literalLength, hvalues.length_eq, String.length_toList]

/-- A prefix route whose names are no ASCII text. -/
def greeting : Route := ⟨"/grüße/\x7bgröße\x7d\x7b名\x7d", .startsWith⟩

theorem parse_consistent_greeting :
    parse "/grüße/\x7bgröße\x7d\x7b名\x7d*" = .ok greeting ∧
      Paired greeting.path.toList ["größe", "名"] ∧
      greeting.literalLength + (["größe", "名"].map (·.length + 2)).sum = greeting.path.length := by
  have h : parse "/grüße/\x7bgröße\x7d\x7b名\x7d*" = .ok greeting := by decide +kernel
  have hvariables : greeting.variableNames = ["größe", "名"] := by decide +kernel
  obtain ⟨-, -, hnames, hlength⟩ := (parse_consistent _).2 _ h
  rw [hvariables] at hlength
  exact ⟨h, (hnames _).mpr hvariables, hlength⟩

end RequestRouting.Route
