import RequestRouting.Proofs.Route.Under
import RequestRouting.Proofs.Routing.Below
import RequestRouting.Proofs.Routing.Stack

/-!
# Routers below a prefix

A prefix in front of all routes of a router, hidden ones included, makes no difference to a request
that has the prefix in front of its path: the same routes match, in the same order of preference, so
the same handler is selected. It sees the same reference and the same values of variables.
-/

namespace RequestRouting

open Request (SameParts)

namespace Router

/-- A cleaned prefix that has no variables, and doesn't end in a slash. -/
structure IsLead (a : String) : Prop where
  cleaned : clean a = a
  opening : '\x7b' ∉ a.toList
  closing : '\x7d' ∉ a.toList
  slash : Text.endsWith "/" a = false

instance (a : String) : Decidable (IsLead a) :=
  decidable_of_iff
    (clean a = a ∧ '\x7b' ∉ a.toList ∧ '\x7d' ∉ a.toList ∧ Text.endsWith "/" a = false)
    ⟨fun ⟨hc, ho, hb, hs⟩ => ⟨hc, ho, hb, hs⟩, fun h => ⟨h.cleaned, h.opening, h.closing, h.slash⟩⟩

theorem IsLead.startsWith {a : String} (ha : IsLead a) : Text.startsWith "/" a = true := by
  rw [← ha.cleaned]
  exact startsWith_clean a

/-- The entry for the route of an entry below a prefix. -/
def Entry.under (e : Entry) (a : String) : Entry := ⟨e.route.under a, e.matcher.under a⟩

theorem Entry.IsClean.startsWith {e : Entry} (he : e.IsClean) :
    Text.startsWith "/" e.route.path = true := by
  obtain ⟨uri, hu⟩ := he.cleaned
  exact Route.startsWith_of_parse hu

variable {a : String}

theorem Entry.IsClean.under {e : Entry} (he : e.IsClean) (ha : IsLead a) :
    (e.under a).IsClean where
  cleaned := by
    obtain ⟨uri, hu⟩ := he.cleaned
    refine ⟨a ++ clean uri, ?_⟩
    rw [clean_append ha.cleaned ha.slash (clean_clean uri)]
    exact Route.parse_append ha.opening ha.closing ha.startsWith hu
  matcher := (Route.matcher_under_eq_ok ha.opening ha.closing he.startsWith).mpr
    ⟨_, he.matcher, rfl⟩
  remainder := by
    rw [Entry.under, Route.keys_under ha.opening ha.closing]
    exact he.remainder
  base := by
    rw [Entry.under, Route.keys_under ha.opening ha.closing]
    exact he.base

/-- Whether the routes of a router are those of another one, all of which are cleaned, below a
prefix. -/
structure IsUnder (a : String) (r s : Router) : Prop where
  mode : s.mode = r.mode
  entries : s.entries = r.entries.map (·.under a)
  hidden : s.hidden = r.hidden.map (·.under a)
  clean : ∀ e ∈ r.entries, e.IsClean

section Selecting

variable {r s : Router}

/-- An entry with its place, below a prefix. -/
def lower (a : String) : Entry × Nat → Entry × Nat := Prod.map (·.under a) id

/-- All routes below a prefix have the literals of the prefix on top of their own. -/
theorem rank_under (ha : IsLead a) (x : Route) : Rank.of (x.under a) =
    { Rank.of x with literals := a.toList.length + (Rank.of x).literals } := by
  rw [Rank.of, Route.variableNames_under ha.opening,
    Route.literalLength_under ha.opening ha.closing]
  rfl

theorem isBetter_under (ha : IsLead a) (x y : Route) :
    (Rank.of (x.under a)).isBetter (Rank.of (y.under a)) = (Rank.of x).isBetter (Rank.of y) := by
  rw [rank_under ha, rank_under ha]
  unfold Rank.isBetter
  dsimp only
  rw [decide_eq_decide.mpr Nat.add_lt_add_iff_left]

theorem better_lower (ha : IsLead a) (x y : Entry × Nat) :
    better (lower a x) (lower a y) = lower a (better x y) := by
  have h : (Rank.of (lower a y).1.route).isBetter (Rank.of (lower a x).1.route) =
      (Rank.of y.1.route).isBetter (Rank.of x.1.route) := isBetter_under ha _ _
  unfold better
  rw [h]
  split <;> rfl

theorem foldl_better_lower (ha : IsLead a) (first : Entry × Nat) (rest : List (Entry × Nat)) :
    (rest.map (lower a)).foldl better (lower a first) = lower a (rest.foldl better first) := by
  induction rest generalizing first with
  | nil => rfl
  | cons x rest ih => rw [List.map_cons, List.foldl_cons, better_lower ha, ih, List.foldl_cons]

/-- A prefix in front of all entries doesn't matter to which one of them is selected, unless that's
left to chance. -/
theorem select_lower (ha : IsLead a) {mode : RoutingMode} (hm : mode ≠ .random)
    (turn chance chance' : Nat) (first : Entry × Nat) (rest : List (Entry × Nat)) :
    select mode turn chance (lower a first) (rest.map (lower a)) =
      lower a (select mode turn chance' first rest) := by
  cases mode with
  | best => exact foldl_better_lower ha first rest
  | custom => exact foldl_better_lower ha first rest
  | first => rfl
  | last =>
    simp only [select]
    rw [← List.map_cons, List.getLast?_map, Option.getD_map]
  | random => exact absurd rfl hm
  | next =>
    simp only [select]
    rw [← List.map_cons, List.length_map, List.getElem?_map, Option.getD_map]

theorem IsUnder.isHidden (h : IsUnder a r s) (path : String) :
    s.isHidden (a ++ path) = r.isHidden path := by
  rw [Router.isHidden, h.hidden, List.any_map, Router.isHidden]
  exact congrArg r.hidden.any (funext fun e => RouteMatcher.accepts_under e.matcher a path)

theorem IsUnder.matching (h : IsUnder a r s) (path : String) :
    s.matching (a ++ path) = (r.matching path).map (lower a) := by
  rw [Router.matching, h.entries, List.zipIdx_map, List.filter_map, Router.matching]
  refine congrArg (List.map (lower a) <| List.filter · _) (funext fun x => ?_)
  exact RouteMatcher.accepts_under x.1.matcher a path

/-- Paths that aren't below the prefix are routed nowhere. -/
theorem IsUnder.route?_eq_none (h : IsUnder a r s) {req : Request}
    (hp : ¬∃ rest, req.uri.path = a ++ rest ∧ Text.startsWith "/" rest = true)
    (turn chance : Nat) : s.route? turn chance req = none := by
  have hm : s.matching req.uri.path = [] := by
    rw [Router.matching, h.entries, List.zipIdx_map, List.filter_eq_nil_iff]
    rintro x hx haccepts
    obtain ⟨⟨e, i⟩, he, rfl⟩ := List.mem_map.mp hx
    have hclean := h.clean e (List.fst_mem_of_mem_zipIdx he)
    obtain ⟨rest, hrest, hr⟩ := RouteMatcher.exists_of_accepts_under haccepts
    exact hp ⟨rest, hrest, Route.startsWith_of_accepts hclean.matcher hclean.startsWith hr⟩
  unfold route?
  rw [hm]
  split <;> rfl

end Selecting

/-- What a handler sees of the variables of its route: those of the pattern that matched, set in
order. -/
theorem get?_of_enter {e : Entry} {req seen : Request} (h : enter e req = some seen) :
    ∃ values, e.matcher.resolve? req.uri.path = some values ∧ ∀ key, key ≠ Attribute.base →
      seen.attributes.get? key = (req.attributes.insertMany values).get? key := by
  obtain ⟨values, hv, rfl⟩ := Option.map_eq_some_iff.mp h
  refine ⟨values, hv, fun key hk => ?_⟩
  split
  · obtain ⟨attributes, hd, ha⟩ :=
      exists_descend (req.setAll values) ((Route.remainder? values).getD "")
    rw [hd]
    exact ha key hk
  · rfl

/-- Whether a handler gets the same of a request that was handed down through another router as it
gets without that router: the same reference, and the same values of variables. The remainder is one
of them if the route yields any. If it doesn't, the remainder of the other router's route is left. -/
structure Agrees (req nested flat : Request) : Prop where
  parts : SameParts nested flat
  values : ∀ key, key ≠ Attribute.base → key ≠ Route.remainder →
    nested.attributes.get? key = flat.attributes.get? key
  remainder : nested.attributes.get? Route.remainder = flat.attributes.get? Route.remainder ∨
    flat.attributes.get? Route.remainder = req.attributes.get? Route.remainder

/-- Whether a request is on its way to the path below a prefix. All that was written is the base and
a remainder. -/
structure Descends (a : String) (req mid : Request) : Prop where
  path : req.uri.path = a ++ mid.uri.path
  parts : SameParts req mid
  values : ∀ key, key ≠ Attribute.base → key ≠ Route.remainder →
    mid.attributes.get? key = req.attributes.get? key

theorem agrees_enter {e : Entry} {req mid nested : Request} (he : e.IsClean) (ha : IsLead a)
    (hd : Descends a req mid) (h : enter e mid = some nested) :
    ∃ flat, enter (e.under a) req = some flat ∧ Agrees req nested flat := by
  obtain ⟨values, hv, hn⟩ := get?_of_enter h
  have hv' : (e.under a).matcher.resolve? req.uri.path = some values := by
    rw [hd.path]
    exact (RouteMatcher.resolve?_under e.matcher a mid.uri.path).trans hv
  obtain ⟨flat, hflat⟩ : ∃ flat, enter (e.under a) req = some flat := by
    rw [enter, hv']
    exact ⟨_, rfl⟩
  obtain ⟨values', hv'', hf⟩ := get?_of_enter hflat
  obtain rfl : values = values' := Option.some.inj (hv'.symm.trans hv'')
  refine ⟨flat, hflat, ?_, ?_, ?_⟩
  · -- Either way, the reference is that of the request.
    exact (hd.parts.trans (sameParts_enter he h)).symm.trans
      (sameParts_enter (he.under ha) hflat)
  · intro key hb hr
    rw [hn key hb, hf key hb]
    exact Keyed.get?_insertMany_congr fun _ => hd.values key hb hr
  · have hb : Route.remainder ≠ Attribute.base := by decide
    rw [hn _ hb, hf _ hb]
    by_cases hm : Route.remainder ∈ values.map (·.1)
    · exact Or.inl (Keyed.get?_insertMany_congr fun hn => absurd hm hn)
    · exact Or.inr (Keyed.get?_insertMany_of_not_mem _ hm)

/-- Whether the same handler is selected, with requests that agree. -/
structure Alike (req : Request) (nested flat : Selection) : Prop where
  place : nested.place = flat.place
  isTurn : nested.isTurn = flat.isTurn
  agrees : Agrees req nested.req flat.req

/-- Below a prefix, the same handlers are selected as without it. -/
theorem IsUnder.alike_route? {r s : Router} (h : IsUnder a r s) (ha : IsLead a)
    (hm : r.mode ≠ .random) {req mid : Request} (hd : Descends a req mid)
    (turn chance chance' : Nat) :
    Option.Rel (Alike req) (r.route? turn chance mid) (s.route? turn chance' req) := by
  -- On the way down, nothing but the base and the remainder was written.
  have hi : mid.isInternal = req.isInternal :=
    congrArg Option.isSome (hd.values Attribute.history (by decide) (by decide))
  unfold route?
  rw [hi, hd.path, h.isHidden, h.matching, h.mode]
  split
  · exact .none
  · cases hmatch : r.matching mid.uri.path with
    | nil => exact .none
    | cons first rest =>
      have hmem : (select r.mode turn chance first rest).1 ∈ r.entries := by
        have hsel := select_mem r.mode turn chance first rest
        rw [← hmatch] at hsel
        exact List.fst_mem_of_mem_zipIdx (List.mem_filter.mp hsel).1
      rw [List.map_cons]
      dsimp only
      rw [select_lower ha hm turn chance' chance]
      generalize select r.mode turn chance first rest = selected at hmem ⊢
      obtain ⟨e, place⟩ := selected
      cases he : enter e mid with
      | none =>
        have hn : enter (e.under a) req = none := by
          rw [enter, Option.map_eq_none_iff] at he ⊢
          rw [hd.path]
          exact (RouteMatcher.resolve?_under e.matcher a mid.uri.path).trans he
        simp only [lower, Prod.map, hn]
        exact .none
      | some nested =>
        obtain ⟨flat, hflat, hagrees⟩ := agrees_enter (h.clean e hmem) ha hd he
        simp only [lower, Prod.map, hflat]
        exact .some ⟨rfl, by simp, hagrees⟩

section Reading

/-- Reads a route. -/
def readRoute (key : String) : Except MatcherError Route := (Route.parse key).mapError .route

/-- Attaches a route for another handler. -/
def attachKey (r : Router) (key : String) : Except MatcherError Router := do
  r.attach (← readRoute key)

/-- Hides a route. -/
def hideKey (r : Router) (key : String) : Except MatcherError Router := do
  return r.hide (← readRoute key)

/-- Reads a router, given its routes and those that it hides. -/
def read (mode : RoutingMode) (place : Nat) (keys hidden : List String) :
    Except MatcherError Router := do
  hidden.foldlM hideKey (← keys.foldlM attachKey { mode, place })

/-- A cleaned key of a route, none of whose variables is written to the attribute of the remainder
or the base. -/
structure IsCleanKey (key : String) : Prop where
  cleaned : clean key = key
  remainder : ∀ route, Route.parse key = .ok route → Route.remainder ∉ route.keys
  base : ∀ route, Route.parse key = .ok route → Attribute.base ∉ route.keys

theorem isCleanKey_iff {key : String} : IsCleanKey key ↔ clean key = key ∧
    ∀ route ∈ (Route.parse key).toOption,
      Route.remainder ∉ route.keys ∧ Attribute.base ∉ route.keys := by
  cases hp : Route.parse key with
  | error e =>
    refine ⟨fun h => ⟨h.cleaned, by simp [Except.toOption]⟩, fun h => ⟨h.1, ?_, ?_⟩⟩
    · simp [hp]
    · simp [hp]
  | ok route =>
    simp only [Except.toOption, Option.mem_def, Option.some.injEq, forall_eq']
    refine ⟨fun h => ⟨h.cleaned, h.remainder _ hp, h.base _ hp⟩, fun h => ⟨h.1, ?_, ?_⟩⟩
    · simpa [hp] using h.2.1
    · simpa [hp] using h.2.2

instance (key : String) : Decidable (IsCleanKey key) := decidable_of_iff _ isCleanKey_iff.symm

variable {r s r' : Router} {key : String}

theorem attachKey_eq_ok : r.attachKey key = .ok r' ↔ ∃ route matcher,
    Route.parse key = .ok route ∧ route.matcher = .ok matcher ∧
      r' = { r with entries := r.entries ++ [⟨route, matcher⟩] } := by
  unfold attachKey readRoute attach
  cases Route.parse key with
  | error e => simp [Except.mapError, bind, Except.bind]
  | ok route =>
    cases hm : route.matcher with
    | error e => simp [Except.mapError, bind, Except.bind, Except.map, hm]
    | ok matcher =>
      simp only [Except.mapError, bind, Except.bind, Except.map, hm, Except.ok.injEq,
        exists_and_left, exists_eq_left']
      exact eq_comm

theorem hideKey_eq_ok : r.hideKey key = .ok r' ↔
    ∃ route, Route.parse key = .ok route ∧ r' = r.hide route := by
  unfold hideKey readRoute
  cases Route.parse key with
  | error e => simp [Except.mapError, bind, Except.bind]
  | ok route =>
    simp only [Except.mapError, bind, Except.bind, pure, Except.pure, Except.ok.injEq,
      exists_eq_left']
    exact eq_comm

theorem IsUnder.attachKey (h : IsUnder a r s) (ha : IsLead a) (hk : IsCleanKey key)
    (hr : r.attachKey key = .ok r') :
    ∃ s', s.attachKey (a ++ key) = .ok s' ∧ IsUnder a r' s' := by
  obtain ⟨route, matcher, hparse, hm, rfl⟩ := attachKey_eq_ok.mp hr
  have hclean : Entry.IsClean ⟨route, matcher⟩ :=
    ⟨⟨key, by rw [hk.cleaned, hparse]⟩, hm, hk.remainder _ hparse, hk.base _ hparse⟩
  refine ⟨_, attachKey_eq_ok.mpr ⟨_, _, ?_, (hclean.under ha).matcher, rfl⟩, ?_⟩
  · exact Route.parse_append ha.opening ha.closing ha.startsWith hparse
  · refine ⟨h.mode, ?_, h.hidden, ?_⟩
    · rw [h.entries, List.map_append]
      rfl
    · intro e he
      rcases List.mem_append.mp he with he | he
      · exact h.clean e he
      · rwa [List.mem_singleton.mp he]

theorem IsUnder.hide (h : IsUnder a r s) (ha : IsLead a) {route : Route}
    (hs : Text.startsWith "/" route.path = true) :
    IsUnder a (r.hide route) (s.hide (route.under a)) := by
  have hany : s.hidden.any (·.route = route.under a) = r.hidden.any (·.route = route) := by
    rw [h.hidden, List.any_map]
    exact congrArg r.hidden.any (funext fun e => decide_eq_decide.mpr Route.under_inj)
  unfold Router.hide
  rw [hany]
  split
  · exact h
  · -- A route that can't be matched can't be matched below the prefix, either.
    cases hm : route.matcher with
    | error e =>
      cases hu : (route.under a).matcher with
      | error e' => exact h
      | ok matcher =>
        obtain ⟨m, hm', -⟩ := (Route.matcher_under_eq_ok ha.opening ha.closing hs).mp hu
        rw [hm] at hm'
        cases hm'
    | ok matcher =>
      rw [(Route.matcher_under_eq_ok ha.opening ha.closing hs).mpr ⟨matcher, hm, rfl⟩]
      refine ⟨h.mode, h.entries, ?_, h.clean⟩
      dsimp only
      rw [h.hidden, List.map_append]
      rfl

theorem IsUnder.hideKey (h : IsUnder a r s) (ha : IsLead a) (hr : r.hideKey key = .ok r') :
    ∃ s', s.hideKey (a ++ key) = .ok s' ∧ IsUnder a r' s' := by
  obtain ⟨route, hparse, rfl⟩ := hideKey_eq_ok.mp hr
  have hparse' := Route.parse_append ha.opening ha.closing ha.startsWith hparse
  exact ⟨_, hideKey_eq_ok.mpr ⟨_, hparse', rfl⟩, h.hide ha (Route.startsWith_of_parse hparse)⟩

/-- What is read key by key is read alike below a prefix if that holds of every key. -/
theorem IsUnder.foldlM {f : Router → String → Except MatcherError Router} {keys : List String}
    (hf : ∀ key ∈ keys, ∀ r s r' : Router, IsUnder a r s → f r key = .ok r' →
      ∃ s', f s (a ++ key) = .ok s' ∧ IsUnder a r' s')
    (h : IsUnder a r s) (hr : keys.foldlM f r = .ok r') :
    ∃ s', (keys.map (a ++ ·)).foldlM f s = .ok s' ∧ IsUnder a r' s' := by
  induction keys generalizing r s with
  | nil =>
    obtain rfl := Except.ok.inj hr
    exact ⟨s, rfl, h⟩
  | cons key keys ih =>
    rw [List.foldlM_cons] at hr
    cases hk : f r key with
    | error e =>
      rw [hk] at hr
      cases hr
    | ok r₁ =>
      rw [hk] at hr
      obtain ⟨s₁, hs₁, h₁⟩ := hf key List.mem_cons_self _ _ _ h hk
      obtain ⟨s', hs', h'⟩ := ih (fun key hk => hf key (List.mem_cons_of_mem _ hk)) h₁ hr
      refine ⟨s', ?_, h'⟩
      rw [List.map_cons, List.foldlM_cons, hs₁]
      exact hs'

/-- A router with cleaned keys can be read below a prefix. -/
theorem exists_read (ha : IsLead a) {mode : RoutingMode} {place : Nat} {keys hidden : List String}
    (hk : ∀ key ∈ keys, IsCleanKey key) (hr : read mode place keys hidden = .ok r) (place' : Nat) :
    ∃ s, read mode place' (keys.map (a ++ ·)) (hidden.map (a ++ ·)) = .ok s ∧ IsUnder a r s := by
  unfold read at hr ⊢
  cases hattach : keys.foldlM attachKey { mode, place } with
  | error e =>
    rw [hattach] at hr
    cases hr
  | ok r₁ =>
    rw [hattach] at hr
    replace hr : hidden.foldlM hideKey r₁ = .ok r := hr
    have h₀ : IsUnder a { mode, place } { mode, place := place' } := ⟨rfl, rfl, rfl, by simp⟩
    obtain ⟨s₁, hs₁, h₁⟩ := IsUnder.foldlM (f := attachKey)
      (fun key hmem _ _ _ h hr => h.attachKey ha (hk key hmem) hr) h₀ hattach
    obtain ⟨s, hs, h⟩ := IsUnder.foldlM (f := hideKey)
      (fun _ _ _ _ _ h hr => h.hideKey ha hr) h₁ hr
    refine ⟨s, ?_, h⟩
    rw [hs₁]
    exact hs

end Reading

end Router

end RequestRouting
