import RequestRouting.Proofs.Routing.Lowering

/-!
# What prefix routes leave of a path

The template of a prefix route matches the front of a path in one way only, so there's one rest
behind it. The handler finds the rest in an attribute, provided that there is any: an empty rest is
written nowhere, so that the attribute keeps what a router further up, or a variable of the same
name, has written to it.
-/

namespace RequestRouting

namespace Pattern

variable {ts : List Token} {p q p' q' : List Char} {u u' : List (String × String)}

/-- A pattern that is allowed takes its values from a path in one way only. -/
theorem Fills.unique (hc : check (pieces ts) = .ok ()) (h : Fills ts p u) (h' : Fills ts p u') :
    u = u' := by
  have hu := (resolve?_eq_some_iff hc).mpr h
  rw [(resolve?_eq_some_iff hc).mpr h'] at hu
  exact (Option.some.inj hu).symm

/-- What follows the text that fills a pattern is unique if everything that's left can go on there.
-/
theorem Fills.rest_unique {name : List Char}
    (hc : check (pieces (ts ++ [.name ('*' :: name)])) = .ok ()) (h : Fills ts p u)
    (h' : Fills ts p' u') (he : p ++ q = p' ++ q') : q = q' := by
  have hts : ∀ t ∈ ts, t.isCatchAll = false := by
    simpa using isCatchAll_of_mem_dropLast hc
  -- A character behind both makes sure that something is left.
  have hfill := h.append hts (.catchAll name (q ++ ['/']) (by simp))
  have hfill' := h'.append hts (.catchAll name (q' ++ ['/']) (by simp))
  rw [← List.append_assoc, he] at hfill
  rw [← List.append_assoc] at hfill'
  obtain ⟨-, hlast⟩ := List.append_inj' (hfill.unique hc hfill') rfl
  simpa [String.ofList_inj] using hlast

/-- The values of the variables in a segment are pieces of it. -/
theorem Fills.value (h : Fills ts p u) (hc : ∀ t ∈ ts, t.isCatchAll = false) :
    ∀ x ∈ u, x.2.toList ≠ [] ∧ '/' ∉ x.2.toList ∧ p ≠ [] := by
  induction h with
  | nil => simp
  | char c _ ih =>
    intro x hx
    obtain ⟨hne, hs, -⟩ := ih (fun t ht => hc t (List.mem_cons_of_mem _ ht)) x hx
    exact ⟨hne, hs, by simp⟩
  | name name text hn ht hs _ ih =>
    intro x hx
    rcases List.mem_cons.mp hx with rfl | hx
    · simp [ht, hs]
    · obtain ⟨hne, hs', -⟩ := ih (fun t ht => hc t (List.mem_cons_of_mem _ ht)) x hx
      exact ⟨hne, hs', by simp [ht]⟩
  | catchAll name text _ => exact absurd (hc _ List.mem_cons_self) (by simp [Token.isCatchAll])

/-- A character at the end of a pattern that ends no name is a token. -/
theorem Reads.getLast?_of_ne {s : List Char} {c : Char} (h : Reads s ts)
    (hs : s.getLast? = some c) (hc : c ≠ '\x7d') : ts.getLast? = some (.char c) := by
  induction h with
  | nil => cases hs
  | @name s name rest ts hr hrest ih =>
    obtain rfl := eq_of_readFullName hr
    cases rest with
    | nil =>
      have hlast : ('\x7b' :: (name ++ ['\x7d'])).getLast? = some '\x7d' := by
        rw [← List.cons_append, List.getLast?_concat]
      rw [hlast] at hs
      exact absurd (Option.some.inj hs).symm hc
    | cons d rest =>
      have hlast : (d :: rest).getLast? = some c := by
        rw [← hs, ← List.cons_append, List.getLast?_append_of_ne_nil _ (by simp),
          List.getLast?_cons_cons]
      have ht := ih hlast
      rw [List.getLast?_cons, ht, Option.getD_some]
  | @char d s ts _ _ hrest ih =>
    cases s with
    | nil =>
      obtain rfl : d = c := by simpa using hs
      cases hrest
      rfl
    | cons d' s =>
      rw [List.getLast?_cons_cons] at hs
      rw [List.getLast?_cons, ih hs, Option.getD_some]

end Pattern

namespace Route

open Pattern (Reads Fills check pieces)

/-- Whether a path is what the template of a prefix route matches, with values for its variables,
followed by a rest. If the template ends in a variable, a slash separates the two, which can be
missing if there's no rest. -/
def Splits (r : Route) (path : String) (values : List (String × String)) (rest : String) : Prop :=
  ∃ ts lead, Reads r.path.toList ts ∧ Fills ts lead values ∧
    if r.isBounded then path.toList = lead ∧ rest = "" ∨ path.toList = lead ++ '/' :: rest.toList
    else path.toList = lead ++ rest.toList

variable {r : Route} {m : RouteMatcher} {path rest rest' : String}
  {values values' : List (String × String)}

theorem Splits.keys (h : r.Splits path values rest) : values.map (·.1) = r.keys := by
  obtain ⟨ts, lead, ht, hl, -⟩ := h
  rw [hl.keys, keys_of_reads ht]

/-- There's only one rest. -/
theorem Splits.rest_unique (hm : r.matcher = .ok m) (hr : r.matching = .startsWith)
    (h : r.Splits path values rest) (h' : r.Splits path values' rest') : rest' = rest := by
  obtain ⟨ts, lead, ht, hl, hsplit⟩ := h
  obtain ⟨ts', lead', ht', hl', hsplit'⟩ := h'
  obtain rfl := ht.unique ht'
  cases hb : r.isBounded with
  | false =>
    obtain ⟨us, hu, -, hc, -⟩ := forms_unbounded hm hr hb
    obtain rfl := ht.unique hu
    simp only [hb, Bool.false_eq_true, if_false] at hsplit hsplit'
    exact String.ext (hl'.rest_unique hc hl (hsplit'.symm.trans hsplit))
  | true =>
    obtain ⟨us, hu, -, -, hc, -⟩ := forms_bounded hm hr hb
    obtain rfl := ht.unique hu
    simp only [hb, if_true] at hsplit hsplit'
    -- A slash behind the template belongs to the pattern that has a rest.
    have hts : ∀ t ∈ ts, t.isCatchAll = false := by
      intro t hmem
      have hall : ∀ t ∈ ts ++ [.char '/'], t.isCatchAll = false := by
        simpa using Pattern.isCatchAll_of_mem_dropLast hc
      exact hall t (List.mem_append_left _ hmem)
    have hslash {lead : List Char} {values : List (String × String)} (hl : Fills ts lead values) :
        Fills (ts ++ [.char '/']) (lead ++ ['/']) values := by
      simpa using hl.append hts (.char '/' .nil)
    rcases hsplit with ⟨hpath, rfl⟩ | hpath <;> rcases hsplit' with ⟨hpath', rfl⟩ | hpath'
    · rfl
    · have he : lead ++ ['/'] ++ [] = lead' ++ ['/'] ++ (rest'.toList ++ ['/']) := by
        simp [← hpath, hpath']
      have hnil := (hslash hl).rest_unique hc (hslash hl') he
      simp at hnil
    · have he : lead' ++ ['/'] ++ [] = lead ++ ['/'] ++ (rest.toList ++ ['/']) := by
        simp [← hpath', hpath]
      have hnil := (hslash hl').rest_unique hc (hslash hl) he
      simp at hnil
    · have he : lead' ++ ['/'] ++ rest'.toList = lead ++ ['/'] ++ rest.toList := by
        simp [← hpath', hpath]
      exact String.ext ((hslash hl').rest_unique hc (hslash hl) he)

/-- What a prefix route yields: the values of its variables, and the rest unless it's empty. -/
theorem exists_splits (hm : r.matcher = .ok m) (hr : r.matching = .startsWith)
    (h : m.resolve? path = some values) : ∃ us rest, r.Splits path us rest ∧
      (∀ x ∈ us, x.2 ≠ "" ∧ '/' ∉ x.2.toList) ∧
      values = us ++ if rest = "" then [] else [(remainder, rest)] := by
  obtain ⟨ts, ht, hts, hresolve⟩ := resolve?_prefix hm hr
  obtain ⟨lead, tail, us, vs, hpath, rfl, hl, htail⟩ := hresolve path values h
  have hvalue : ∀ x ∈ us, x.2 ≠ "" ∧ '/' ∉ x.2.toList := by
    intro x hx
    obtain ⟨hne, hs, -⟩ := hl.value hts x hx
    exact ⟨fun he => hne (by simp [he]), hs⟩
  generalize hb : r.isBounded = bounded at htail
  cases htail with
  | nothing =>
    refine ⟨us, "", ⟨ts, lead, ht, hl, ?_⟩, hvalue, by simp⟩
    cases bounded <;> simp [hb, hpath]
  | slash => exact ⟨us, "", ⟨ts, lead, ht, hl, by simp [hb, hpath]⟩, hvalue, by simp⟩
  | rest _ hne =>
    exact ⟨us, .ofList tail, ⟨ts, lead, ht, hl, by simp [hb, hpath]⟩, hvalue, by simp [hne]⟩
  | below text hne =>
    exact ⟨us, .ofList text, ⟨ts, lead, ht, hl, by simp [hb, hpath]⟩, hvalue, by simp [hne]⟩

/-- If the template ends in a slash, the rest stands behind a slash. -/
theorem Splits.exists_lead (hm : r.matcher = .ok m) (hr : r.matching = .startsWith)
    (h : r.Splits path values rest) (hs : Text.endsWith "/" r.path = true) :
    ∃ lead, path = lead ++ "/" ++ rest ∧ (values ≠ [] → lead ≠ "") := by
  obtain ⟨before, hbefore⟩ := Text.endsWith_iff.mp hs
  have hlast : r.path.toList.getLast? = some '/' := by simp [hbefore]
  have hb : r.isBounded = false := by
    rw [isBounded, Bool.eq_false_iff]
    intro hb
    obtain ⟨other, hother⟩ := Text.endsWith_iff.mp hb
    simp [hother] at hlast
  obtain ⟨us, hu, hus, -⟩ := resolve?_prefix hm hr
  obtain ⟨ts, lead, ht, hl, hsplit⟩ := h
  obtain rfl := ht.unique hu
  obtain ⟨front, rfl⟩ := List.getLast?_eq_some_iff.mp (ht.getLast?_of_ne hlast (by decide))
  have hfront : ∀ t ∈ front, t.isCatchAll = false := fun t ht => hus t (List.mem_append_left _ ht)
  obtain ⟨p, q, u, v, rfl, rfl, hp, hq⟩ := (Pattern.fills_append_iff hfront).mp hl
  obtain ⟨_, rfl, hnil⟩ := Pattern.fills_char_iff.mp hq
  obtain ⟨rfl, rfl⟩ := Pattern.fills_nil_iff.mp hnil
  rw [hb, if_neg Bool.false_ne_true] at hsplit
  refine ⟨.ofList p, String.ext (by simp [hsplit]), fun hne he => ?_⟩
  obtain ⟨x, hx⟩ := List.exists_mem_of_ne_nil u (by simpa using hne)
  obtain ⟨-, -, hp'⟩ := hp.value hfront x hx
  exact hp' (by simpa using he)

/-- The first value for the remainder is the one of a variable if there's a variable for it. -/
theorem exists_remainder?_append (h : remainder ∈ values.map (·.1))
    (values' : List (String × String)) : ∃ v, (remainder, v) ∈ values ∧
      remainder? values = some v ∧ remainder? (values ++ values') = some v := by
  obtain ⟨x, hx, hkey⟩ := List.mem_map.mp h
  obtain ⟨y, hy⟩ : ∃ y, values.find? (·.1 = remainder) = some y :=
    Option.isSome_iff_exists.mp (List.find?_isSome.mpr ⟨x, hx, by simpa using hkey⟩)
  have hkey : y.1 = remainder := by simpa using List.find?_some hy
  refine ⟨y.2, ?_, ?_, ?_⟩
  · rw [← hkey]
    exact List.mem_of_find?_eq_some hy
  · rw [remainder?, hy, Option.map_some]
  · rw [remainder?, List.find?_append, hy, Option.some_or, Option.map_some]

end Route

/-- What is exposed of the path as the remainder, which is empty if the attribute isn't set. -/
def Request.remainder (req : Request) : String := (req.attributes.get? Route.remainder).getD ""

namespace Router

/-- A rest that isn't empty is what is exposed. An empty one is exposed only if nothing else is. -/
theorem get?_remainder_iff (attributes : Attributes) {values : List (String × String)}
    (hv : ∀ x ∈ values, x.2 ≠ "") (rest : String) :
    ((attributes.insertMany (values ++ if rest = "" then [] else [(Route.remainder, rest)])).get?
        Route.remainder).getD "" = rest ↔
      rest ≠ "" ∨ Route.remainder ∉ values.map (·.1) ∧
        (attributes.get? Route.remainder).getD "" = "" := by
  by_cases hr : rest = ""
  · subst rest
    simp only [if_true, List.append_nil, ne_eq, not_true_eq_false, false_or]
    by_cases hk : Route.remainder ∈ values.map (·.1)
    · obtain ⟨v, hmem, hget⟩ := attributes.exists_get?_insertMany hk
      have hne : v ≠ "" := hv _ hmem
      simp [hget, hne, hk]
    · rw [Keyed.get?_insertMany_of_not_mem _ hk]
      simp [hk]
  · rw [if_neg hr, Keyed.insertMany, List.foldl_append, List.foldl_cons, List.foldl_nil,
      Keyed.get?_insert_self]
    simp [hr]

/-- What is left below a prefix that ends in a slash is the rest behind it, unless another text
without slashes is taken for the rest. -/
theorem below_eq_iff {path lead rest text : String} (hp : path = lead ++ "/" ++ rest)
    (ht : text = rest ∨ text ≠ "" ∧ '/' ∉ text.toList ∧ lead ≠ "") :
    below path text = "/" ++ rest ↔ text = rest := by
  have hslash (more : String) : Text.startsWith "/" ("/" ++ more) = true :=
    Text.startsWith_iff.mpr ⟨more, rfl⟩
  constructor
  · intro hb
    rcases ht with h | ⟨hne, hs, hlead⟩
    · exact h
    · have hpath : path ≠ "/" ++ rest := by
        rw [hp, String.append_assoc]
        intro he
        have hl := congrArg (List.length ∘ String.toList) he
        simp only [Function.comp, String.toList_append, List.length_append] at hl
        exact hlead (String.toList_eq_nil_iff.mp (List.length_eq_zero_iff.mp (by omega)))
      unfold below at hb
      split at hb
      · exact absurd hb hpath
      · rename_i before hd
        by_cases he : Text.endsWith "/" before = true
        · simp only [he, if_true, hslash, Bool.or_true] at hb
          simpa using hb
        · have hstart : Text.startsWith "/" text = false := by
            rw [Bool.eq_false_iff]
            intro hstart
            obtain ⟨more, rfl⟩ := Text.startsWith_iff.mp hstart
            simp at hs
          exact absurd (by simpa [he, hne, hstart] using hb) hpath
  · rintro rfl
    have hd : Text.dropTail? text path = some (lead ++ "/") := Text.dropTail?_eq_some.mpr hp
    have he : Text.endsWith "/" (lead ++ "/") = true := Text.endsWith_iff.mpr ⟨lead, rfl⟩
    simp only [below, hd, he, if_true, hslash, Bool.or_true]

variable {e : Entry} {req seen : Request}

/-- What a handler sees as the remainder is what its route leaves of the path, with exceptions. -/
theorem exists_splits_of_enter (hm : e.route.matcher = .ok e.matcher)
    (hr : e.route.matching = .startsWith) (h : enter e req = some seen) :
    ∃ values rest, e.route.Splits req.uri.path values rest ∧
      (seen.remainder = rest ↔
        rest ≠ "" ∨ Route.remainder ∉ e.route.keys ∧ req.remainder = "") ∧
      (Text.endsWith "/" e.route.path = true → (seen.uri.path = "/" ++ rest ↔
        Route.remainder ∉ e.route.keys ∨ Route.remainder? values = some rest)) := by
  obtain ⟨values, hresolve, hget⟩ := get?_of_enter h
  obtain ⟨us, rest, hsplit, hvalue, rfl⟩ := Route.exists_splits hm hr hresolve
  refine ⟨us, rest, hsplit, ?_, fun hs => ?_⟩
  · rw [Request.remainder, hget _ (by decide), ← hsplit.keys]
    exact get?_remainder_iff req.attributes (fun x hx => (hvalue x hx).1) rest
  · have hpath := (exists_of_enter h).1
    have hp : e.route.isPrefixRoute = true := by simp [Route.isPrefixRoute, hr]
    rw [Entry.path?, hresolve, Option.map_some, if_pos hp] at hpath
    obtain ⟨lead, hlead, hne⟩ := hsplit.exists_lead hm hr hs
    rw [← Option.some.inj hpath, ← hsplit.keys]
    by_cases hk : Route.remainder ∈ us.map (·.1)
    · obtain ⟨v, hmem, hus, happ⟩ := Route.exists_remainder?_append hk
        (if rest = "" then [] else [(Route.remainder, rest)])
      obtain ⟨hv, hslash⟩ := hvalue _ hmem
      rw [happ, Option.getD_some,
        below_eq_iff hlead (Or.inr ⟨hv, hslash, hne (List.ne_nil_of_mem hmem)⟩)]
      simp [hk, hus]
    · rw [Route.remainder?_append hk]
      have hrest : ((Route.remainder? (if rest = "" then [] else [(Route.remainder, rest)])).getD
          "") = rest := by
        split
        · simp [Route.remainder?, *]
        · simp [Route.remainder?]
      rw [hrest]
      simp [below_eq_iff hlead (Or.inl rfl), hk]

variable {r : Router} {w : World} {s : Selection}

/-- The rest that the template of a selected prefix route leaves of the path is what its handler
sees as the remainder exactly if it isn't empty, or if nothing is written to the attribute of the
remainder, neither by a variable of the route, nor before. If the template ends in a slash, a slash
and the rest are the path that the handler sees exactly if no variable of the route is named after
the remainder, or the first one that is has the rest for its value. -/
theorem remainder_seen_iff (hm : e.route.matcher = .ok e.matcher)
    (hr : e.route.matching = .startsWith) (hs : r.select? req w = some s)
    (he : r.entries[s.place]? = some e) :
    ∃ values rest, e.route.Splits req.uri.path values rest ∧
      (∀ others other, e.route.Splits req.uri.path others other → other = rest) ∧
      (∀ handlers handler, handlers[s.place]? = some handler →
        r.serve handlers req w = handler s.req (r.advance (some s) w)) ∧
      (s.req.remainder = rest ↔
        rest ≠ "" ∨ Route.remainder ∉ e.route.keys ∧ req.remainder = "") ∧
      (Text.endsWith "/" e.route.path = true → (s.req.uri.path = "/" ++ rest ↔
        Route.remainder ∉ e.route.keys ∨ Route.remainder? values = some rest)) := by
  obtain ⟨e', he', henter⟩ := getElem?_of_route? hs
  obtain rfl : e = e' := Option.some.inj (he.symm.trans he')
  obtain ⟨values, rest, hsplit, hremainder, hpath⟩ := exists_splits_of_enter hm hr henter
  refine ⟨values, rest, hsplit, fun others other h => ?_, fun handlers handler hh => ?_,
    hremainder, hpath⟩
  · exact hsplit.rest_unique hm hr h
  · rw [serve_apply, hs]
    simp [hh]

/-- The entry of the prefix route for what is below a directory. -/
def directory (name : Char) : Entry where
  route := ⟨.ofList ['/', name, '/'], .startsWith⟩
  matcher := ⟨[[.char '/', .char name, .char '/'],
    [.char '/', .char name, .char '/', .catchAll ['r', 'r'] []]]⟩

/-- What is requested from the second of two nested routers, as the first one hands it down. -/
def bookRequest (book : String) : Request where
  uri := ⟨"/b/" ++ book, none⟩
  attributes := ⟨[("rr", "b/" ++ book), (Attribute.base, "/a")]⟩

/-- What a handler of the second router gets. -/
def bookSeen (book remainder : String) : Request where
  uri := ⟨"/" ++ book, none⟩
  attributes := ⟨[("rr", remainder), (Attribute.base, "/a/b")]⟩

/-- A book on the shelf is exposed. -/
theorem remainder_seen_iff_book : ∃ s,
    ({ entries := [directory 'b'] } : Router).select? (bookRequest "red") {} = some s ∧
    s.req.remainder = "red" ∧ s.req.uri.path = "/red" := by
  have hm : (directory 'b').route.matcher = .ok (directory 'b').matcher := by decide +kernel
  have hk : (directory 'b').route.keys = [] := by decide +kernel
  have hv : (directory 'b').matcher.resolve? "/b/red" = some [("rr", "red")] := by decide +kernel
  have henter : enter (directory 'b') (bookRequest "red") = some (bookSeen "red" "red") := by
    decide +kernel
  have hs : ({ entries := [directory 'b'] } : Router).select? (bookRequest "red") {} =
      some ⟨0, bookSeen "red" "red", false⟩ :=
    route?_of_matching (by decide +kernel) (by decide +kernel) henter _ _
  obtain ⟨us, book, hsplit, -, hus⟩ := Route.exists_splits hm rfl hv
  obtain rfl : us = [] := by simpa [hk] using hsplit.keys
  obtain rfl : book = "red" := by
    split at hus
    · simp at hus
    · obtain ⟨-, h⟩ : Route.remainder = "rr" ∧ book = "red" := by simpa [eq_comm] using hus
      exact h
  obtain ⟨values, rest, -, hunique, -, hremainder, hpath⟩ := remainder_seen_iff hm rfl hs rfl
  obtain rfl := hunique _ _ hsplit
  refine ⟨_, hs, hremainder.mpr (Or.inl (by decide)), ?_⟩
  rw [(hpath (by decide +kernel)).mpr (Or.inl (by simp [hk]))]
  rfl

/-- Nothing follows the prefix of the second router, but its handler still sees the remainder that
the first one exposed. -/
theorem not_exposes_remainder :
    enter (directory 'a') { uri := ⟨"/a/b/", none⟩ } = some (bookRequest "") ∧
    ¬∀ (r : Router) (req : Request) (w : World) (s : Selection) (e : Entry),
      e.route.matcher = .ok e.matcher → e.route.matching = .startsWith →
      r.select? req w = some s → r.entries[s.place]? = some e →
      ∀ values rest, e.route.Splits req.uri.path values rest → s.req.remainder = rest := by
  refine ⟨by decide +kernel, fun h => ?_⟩
  have hm : (directory 'b').route.matcher = .ok (directory 'b').matcher := by decide +kernel
  have hv : (directory 'b').matcher.resolve? "/b/" = some [] := by decide +kernel
  have henter : enter (directory 'b') (bookRequest "") = some (bookSeen "" "b/") := by
    decide +kernel
  have hs : ({ entries := [directory 'b'] } : Router).select? (bookRequest "") {} =
      some ⟨0, bookSeen "" "b/", false⟩ :=
    route?_of_matching (by decide +kernel) (by decide +kernel) henter _ _
  obtain ⟨values, rest, hsplit, -, hnil⟩ := Route.exists_splits hm rfl hv
  have hrest : "b/" = rest := h _ _ _ _ _ hm rfl hs rfl values rest hsplit
  simp [← hrest] at hnil

end Router

end RequestRouting
