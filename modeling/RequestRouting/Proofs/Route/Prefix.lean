import RequestRouting.Proofs.Route.Matchable

/-!
# Prefix routes

A prefix route matches whatever starts with what its exact route matches. Only if its template ends
in a variable, nothing but a slash can follow, as the variable would take anything else. Without
variables, that's what starts with the template itself, and all that follows it is the remainder.
-/

namespace RequestRouting

/-- A pattern in which no names are found between braces has no variables. -/
theorem Pattern.Reads.keys_eq_nil {s : List Char} {ts : List Pattern.Token}
    (h : Pattern.Reads s ts) (hn : Route.names s = []) : ts.filterMap Pattern.Token.key? = [] := by
  induction h with
  | nil => rfl
  | name hr _ _ =>
    -- The name would end in one of the pieces.
    obtain rfl := eq_of_readFullName hr
    have hne : '\x7d' ≠ '\x7b' := by decide
    obtain ⟨piece, hp, hmem⟩ :=
      Text.Chars.exists_mem_pieces (List.mem_append_right _ List.mem_cons_self) hne
    have hcut := List.filterMap_eq_nil_iff.mp hn piece (by simpa [Text.Chars.pieces] using hp)
    exact absurd hmem (Text.Chars.not_mem_of_cut? (Option.map_eq_none_iff.mp hcut))
  | char ho _ _ ih =>
    rw [Route.names_literal ho] at hn
    simpa [Pattern.Token.key?] using ih hn

namespace Route

open Pattern (Reads Fills fills_characters_append)

variable {r : Route} {m exact : RouteMatcher} {template path : String}
  {values : List (String × String)} {ts : List Pattern.Token}

/-- A route without names of variables has no variables. -/
theorem keys_eq_nil_of_names (hm : r.matcher = .ok m) (h : r.variableNames = []) :
    r.keys = [] := by
  unfold matcher at hm
  cases hread : Pattern.read r.path with
  | error e => simp [hread, bind, Except.bind, Except.mapError] at hm
  | ok ps =>
    obtain ⟨ts, ht, -, -⟩ := Pattern.read_eq_ok.mp hread
    rw [keys_of_reads ht]
    exact ht.keys_eq_nil ((variableNames_eq r).symm.trans h)

/-- Characters of a pattern aren't braces. -/
theorem not_mem_of_reads {s : List Char} (h : Reads s ts)
    (hall : ts.all Pattern.Token.isChar = true) : '\x7d' ∉ s := by
  induction h with
  | nil => simp
  | name _ _ _ => simp [Pattern.Token.isChar] at hall
  | char _ hc _ ih =>
    rw [List.all_cons, Bool.and_eq_true] at hall
    rw [List.mem_cons, not_or]
    exact ⟨Ne.symm hc, ih hall.2⟩

/-- What may follow a prefix: anything, but if the prefix is bounded, nothing or a slash. -/
theorem exists_tail_iff {bounded : Bool} {tail : List Char} :
    (∃ vs, Tail bounded tail vs) ↔ (bounded = true → tail = [] ∨ ∃ more, tail = '/' :: more) := by
  constructor
  · rintro ⟨vs, h⟩
    cases h with
    | nothing => exact fun _ => Or.inl rfl
    | slash => exact fun _ => Or.inr ⟨[], rfl⟩
    | rest => exact fun h => absurd h Bool.false_ne_true
    | below text => exact fun _ => Or.inr ⟨text, rfl⟩
  · intro h
    cases bounded with
    | false =>
      by_cases ht : tail = []
      · exact ⟨[], ht ▸ .nothing false⟩
      · exact ⟨_, .rest tail ht⟩
    | true =>
      rcases h rfl with rfl | ⟨more, rfl⟩
      · exact ⟨[], .nothing true⟩
      · by_cases hm : more = []
        · exact ⟨[], hm ▸ .slash⟩
        · exact ⟨_, .below more hm⟩

/-- What a tail is worth if the prefix isn't bounded. -/
theorem tail_false_iff {tail : List Char} {vs : List (String × String)} :
    Tail false tail vs ↔ vs = if tail = [] then [] else [(remainder, .ofList tail)] := by
  constructor
  · intro h
    generalize hb : false = bounded at h
    cases h with
    | nothing => rfl
    | slash => cases hb
    | rest _ hn => rw [if_neg hn]
    | below => cases hb
  · rintro rfl
    split
    · rename_i ht
      exact ht ▸ .nothing false
    · exact .rest tail ‹_›

/-- A prefix route without variables matches what starts with its path, and yields what follows as
the remainder, unless nothing follows. -/
theorem resolve?_iff_of_keys (hm : r.matcher = .ok m) (hr : r.matching = .startsWith)
    (hk : r.keys = []) :
    m.resolve? path = some values ↔
      ∃ rest, path = r.path ++ rest ∧ values = if rest = "" then [] else [(remainder, rest)] := by
  obtain ⟨ts, ht, haccepts⟩ := accepts_prefix hm hr
  obtain ⟨us, hu, -, hresolve⟩ := resolve?_prefix hm hr
  rw [hu.unique ht] at hresolve
  rw [keys_of_reads ht] at hk
  obtain ⟨hall, hpath⟩ := ht.characters hk
  have hfills {lead : List Char} {values : List (String × String)} :
      Fills ts lead values ↔ lead = r.path.toList ∧ values = [] := by
    rw [← List.append_nil ts, fills_characters_append hall]
    simp [hpath]
  have hb : r.isBounded = false := by
    rw [isBounded, Bool.eq_false_iff]
    intro hb
    obtain ⟨lead, hb⟩ := Text.endsWith_iff.mp hb
    exact not_mem_of_reads ht hall (by simp [hb])
  have hsplit {path : String} {values : List (String × String)}
      (h : m.resolve? path = some values) : ∃ rest, path = r.path ++ rest ∧
        values = if rest = "" then [] else [(remainder, rest)] := by
    obtain ⟨lead, tail, us, vs, hp, rfl, hl, htail⟩ := hresolve _ _ h
    obtain ⟨rfl, rfl⟩ := hfills.mp hl
    rw [hb, tail_false_iff] at htail
    exact ⟨.ofList tail, String.ext (by simpa using hp), by simp [htail]⟩
  refine ⟨hsplit, ?_⟩
  rintro ⟨rest, rfl, rfl⟩
  obtain ⟨vs, hvs⟩ : ∃ vs, Tail r.isBounded rest.toList vs := exists_tail_iff.mpr (by simp [hb])
  have ha : m.accepts (r.path ++ rest) = true :=
    (haccepts _).mpr ⟨_, _, [], vs, String.toList_append, hfills.mpr ⟨rfl, rfl⟩, hvs⟩
  obtain ⟨values, hv⟩ := Option.isSome_iff_exists.mp ha
  obtain ⟨rest', hrest, rfl⟩ := hsplit hv
  rw [hv, String.append_right_inj _ |>.mp hrest]

/-- The remainder that is yielded is what follows, be it empty. -/
theorem getD_remainder? (rest : String) :
    (remainder? (if rest = "" then [] else [(remainder, rest)])).getD "" = rest := by
  split
  · simp [remainder?, *]
  · simp [remainder?]

/-- A text may follow a template as a tail unless the template ends in a variable, and the text is
neither empty nor starts with a slash. -/
theorem exists_tail_toList_iff {rest : String} :
    (∃ vs, Tail r.isBounded rest.toList vs) ↔
      (Text.endsWith "\x7d" r.path = true → rest = "" ∨ Text.startsWith "/" rest = true) := by
  rw [exists_tail_iff, isBounded]
  refine imp_congr_right fun _ => or_congr String.toList_eq_nil_iff ?_
  rw [Text.startsWith_iff]
  constructor
  · rintro ⟨more, h⟩
    exact ⟨.ofList more, String.ext (by simp [h])⟩
  · rintro ⟨more, rfl⟩
    exact ⟨more.toList, by simp⟩

/-- A prefix route matches what starts with a path of the exact route, with a tail. -/
theorem accepts_iff_exact (he : (⟨template, .exact⟩ : Route).matcher = .ok exact)
    (hm : (⟨template, .startsWith⟩ : Route).matcher = .ok m) :
    m.accepts path = true ↔ ∃ lead rest, path = lead ++ rest ∧ exact.accepts lead = true ∧
      ∃ vs, Tail (isBounded ⟨template, .startsWith⟩) rest.toList vs := by
  obtain ⟨ts, ht, haccepts⟩ := accepts_prefix hm rfl
  obtain ⟨us, hu, hexact⟩ := resolve?_exact he rfl
  obtain rfl := ht.unique hu
  have hlead (lead : String) : exact.accepts lead = true ↔ ∃ us, Fills ts lead.toList us := by
    simp only [RouteMatcher.accepts, Option.isSome_iff_exists, hexact]
  rw [haccepts]
  constructor
  · rintro ⟨lead, tail, us, vs, hp, hl, htail⟩
    refine ⟨.ofList lead, .ofList tail, String.ext (by simpa using hp), ?_, vs, by simpa using htail⟩
    rw [hlead, String.toList_ofList]
    exact ⟨us, hl⟩
  · rintro ⟨lead, rest, rfl, hl, vs, htail⟩
    obtain ⟨us, hl⟩ := (hlead lead).mp hl
    exact ⟨_, _, us, vs, String.toList_append, hl, htail⟩

/-- A prefix route without variables matches what starts with its path. -/
theorem accepts_iff_of_keys (hm : r.matcher = .ok m) (hr : r.matching = .startsWith)
    (hk : r.keys = []) : m.accepts path = true ↔ Text.startsWith r.path path = true := by
  rw [Text.startsWith_iff, RouteMatcher.accepts, Option.isSome_iff_exists]
  simp only [resolve?_iff_of_keys hm hr hk]
  constructor
  · rintro ⟨_, rest, hp, -⟩
    exact ⟨rest, hp⟩
  · rintro ⟨rest, hp⟩
    exact ⟨_, rest, hp, rfl⟩

/-- If the exact route and the prefix route of a template both have a matcher, the prefix route
matches the paths that start with what the exact route matches, where nothing or a slash follows if
the template ends in a variable. Without variables, these are the paths that start with the template,
and what follows it is the remainder, which isn't written if it's empty. -/
theorem accepts_startsWith_iff (he : (⟨template, .exact⟩ : Route).matcher = .ok exact)
    (hm : (⟨template, .startsWith⟩ : Route).matcher = .ok m) (path : String) :
    (m.accepts path = true ↔ ∃ lead rest, path = lead ++ rest ∧ exact.accepts lead = true ∧
      (Text.endsWith "\x7d" template = true → rest = "" ∨ Text.startsWith "/" rest = true)) ∧
    ((⟨template, .exact⟩ : Route).variableNames = [] →
      (m.accepts path = true ↔ Text.startsWith template path = true) ∧
      ∀ rest, path = template ++ rest → ∃ values, m.resolve? path = some values ∧
        values = (if rest = "" then [] else [(remainder, rest)]) ∧
        (remainder? values).getD "" = rest) := by
  refine ⟨?_, fun hv => ?_⟩
  · rw [accepts_iff_exact he hm]
    simp only [exists_tail_toList_iff]
  · have hk : (⟨template, .startsWith⟩ : Route).keys = [] := keys_eq_nil_of_names hm hv
    refine ⟨accepts_iff_of_keys hm rfl hk, ?_⟩
    rintro rest rfl
    exact ⟨_, (resolve?_iff_of_keys hm rfl hk).mpr ⟨rest, rfl, rfl⟩, rfl, getD_remainder? rest⟩

/-- The photos of a user are below a template that ends in a variable. A template without variables
may end within a segment. -/
theorem accepts_startsWith_iff_user : ∃ exact m fixed files,
    (⟨"/users/\x7bid\x7d", .exact⟩ : Route).matcher = .ok exact ∧
    (⟨"/users/\x7bid\x7d", .startsWith⟩ : Route).matcher = .ok m ∧
    m.accepts "/users/7/photos" = true ∧
    (⟨"/static", .exact⟩ : Route).matcher = .ok fixed ∧
    (⟨"/static", .startsWith⟩ : Route).matcher = .ok files ∧
    files.accepts "/stat" = false ∧ ∃ values, files.resolve? "/staticfiles" = some values ∧
      (remainder? values).getD "" = "files" := by
  have hall : ∀ r ∈ [(⟨"/users/\x7bid\x7d", .exact⟩ : Route), ⟨"/users/\x7bid\x7d", .startsWith⟩,
      ⟨"/static", .exact⟩, ⟨"/static", .startsWith⟩], r.IsMatchable := by decide +kernel
  simp only [List.forall_mem_cons, ← exists_matcher_iff] at hall
  obtain ⟨⟨exact, he⟩, ⟨m, hm⟩, ⟨fixed, hf⟩, ⟨files, hs⟩, -⟩ := hall
  have hseven : (⟨"/users/\x7bid\x7d", .exact⟩ : Route).Covers "/users/7" := by decide +kernel
  obtain ⟨hfront, -⟩ := accepts_startsWith_iff he hm "/users/7/photos"
  obtain ⟨-, hstat⟩ := accepts_startsWith_iff hf hs "/stat"
  obtain ⟨-, hfiles⟩ := accepts_startsWith_iff hf hs "/staticfiles"
  have hnone : (⟨"/static", .exact⟩ : Route).variableNames = [] := by decide +kernel
  refine ⟨exact, m, fixed, files, he, hm, ?_, hf, hs, ?_, ?_⟩
  · exact hfront.mpr ⟨"/users/7", "/photos", by decide, (covers_iff he).mp hseven,
      fun _ => Or.inr (by decide +kernel)⟩
  · rw [Bool.eq_false_iff, ne_eq, (hstat hnone).1]
    decide +kernel
  · obtain ⟨values, hv, -, hrest⟩ := (hfiles hnone).2 "files" (by decide)
    exact ⟨values, hv, hrest⟩

end Route

end RequestRouting
