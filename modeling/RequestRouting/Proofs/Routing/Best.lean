import Mathlib.Data.Prod.Lex
import RequestRouting.Proofs.Route.Prefix
import RequestRouting.Proofs.Routing.Stack

/-!
# The best match

Matching routes are compared by what they look like first, and by where they were declared only if
they look the same: exact routes come before prefix routes, then those with fewer variables, then
those with more literal characters. This is a linear order, so there is one best match. What it
looks like doesn't depend on the order of the declarations.
-/

namespace RequestRouting

namespace Router

section Order

/-- What routes are compared by, in this order: whether they are prefix routes, how many variables
they have, and how many literal characters, the greater number of which comes first. -/
def Rank.key (a : Rank) : Bool ×ₗ ℕ ×ₗ ℕᵒᵈ :=
  toLex (a.isPrefixRoute, toLex (a.variableCount, OrderDual.toDual a.literals))

/-- The place of a route in the order in which matching routes are preferred. What the route looks
like comes before the place it's declared at. -/
def precedence (route : Route) (place : ℕ) : (Bool ×ₗ ℕ ×ₗ ℕᵒᵈ) ×ₗ ℕ :=
  toLex ((Rank.of route).key, place)

theorem Rank.key_injective : Function.Injective Rank.key := by
  intro a b h
  cases a
  cases b
  simpa [key] using h

/-- A rank is better exactly if it comes first. -/
theorem Rank.isBetter_iff {a b : Rank} : a.isBetter b = true ↔ a.key < b.key := by
  obtain ⟨p, v, l⟩ := a
  obtain ⟨p', v', l'⟩ := b
  simp only [isBetter, key, Prod.Lex.toLex_lt_toLex, OrderDual.toDual_lt_toDual]
  by_cases hp : p = p'
  · by_cases hv : v = v'
    · simp [hp, hv]
    · simp [hp, hv]
  · cases p <;> cases p' <;> simp at hp ⊢

/-- The better one of two entries comes first, the second one being declared later. -/
theorem precedence_better {x y : Entry × ℕ} (h : x.2 < y.2) :
    precedence (better x y).1.route (better x y).2 ≤ precedence x.1.route x.2 ∧
      precedence (better x y).1.route (better x y).2 ≤ precedence y.1.route y.2 := by
  unfold better
  split
  · rename_i hb
    have hlt := Rank.isBetter_iff.mp hb
    exact ⟨(Prod.Lex.toLex_lt_toLex.mpr (Or.inl hlt)).le, le_rfl⟩
  · rename_i hb
    have hle := not_lt.mp (mt Rank.isBetter_iff.mpr hb)
    refine ⟨le_rfl, Prod.Lex.toLex_le_toLex.mpr ?_⟩
    rcases hle.lt_or_eq with hlt | heq
    · exact Or.inl hlt
    · exact Or.inr ⟨heq, h.le⟩

/-- Of entries in the order of their declaration, none comes before the one that is selected. -/
theorem precedence_foldl_better {first : Entry × ℕ} {rest : List (Entry × ℕ)}
    (h : (first :: rest).Pairwise (·.2 < ·.2)) :
    ∀ x ∈ first :: rest, precedence (rest.foldl better first).1.route (rest.foldl better first).2 ≤
      precedence x.1.route x.2 := by
  induction rest generalizing first with
  | nil => simp
  | cons y rest ih =>
    obtain ⟨hfirst, hy, hrest⟩ : (first.2 < y.2 ∧ ∀ z ∈ rest, first.2 < z.2) ∧
        (∀ z ∈ rest, y.2 < z.2) ∧ rest.Pairwise (·.2 < ·.2) := by simpa using h
    obtain ⟨hle, hle'⟩ := precedence_better hfirst.1
    have hb : (better first y :: rest).Pairwise (·.2 < ·.2) := by
      refine List.pairwise_cons.mpr ⟨fun z hz => ?_, hrest⟩
      unfold better
      split
      · exact hy z hz
      · exact hfirst.2 z hz
    have hbest := ih hb
    intro x hx
    simp only [List.mem_cons] at hx
    rcases hx with rfl | rfl | hx
    · exact (hbest _ List.mem_cons_self).trans hle
    · exact (hbest _ List.mem_cons_self).trans hle'
    · exact hbest x (List.mem_cons_of_mem _ hx)

end Order

section Attaching

/-- Attaches routes one after another. -/
def attachAll (r : Router) (routes : List Route) : Except MatcherError Router :=
  routes.foldlM attach r

/-- Whether the entries of a router are those of routes, with their matchers. -/
structure IsOf (r : Router) (routes : List Route) : Prop where
  routes : r.entries.map (·.route) = routes
  matcher : ∀ e ∈ r.entries, e.route.matcher = .ok e.matcher

variable {r r' : Router} {routes more : List Route} {route : Route}

theorem IsOf.attach (h : r.IsOf routes) (ha : r.attach route = .ok r') :
    r'.IsOf (routes ++ [route]) ∧ r'.mode = r.mode ∧ r'.hidden = r.hidden := by
  unfold Router.attach at ha
  cases hm : route.matcher with
  | error e => simp [hm, Except.map] at ha
  | ok m =>
    obtain rfl : _ = r' := by simpa [hm, Except.map] using ha
    refine ⟨⟨by simp [h.routes], fun e he => ?_⟩, rfl, rfl⟩
    rcases List.mem_append.mp he with he | he
    · exact h.matcher e he
    · rwa [List.mem_singleton.mp he]

theorem IsOf.attachAll (h : r.IsOf routes) (ha : r.attachAll more = .ok r') :
    r'.IsOf (routes ++ more) ∧ r'.mode = r.mode ∧ r'.hidden = r.hidden := by
  induction more generalizing r routes with
  | nil =>
    obtain rfl : r = r' := by simpa [Router.attachAll, pure, Except.pure] using ha
    simpa using h
  | cons route more ih =>
    rw [Router.attachAll, List.foldlM_cons] at ha
    cases hr : r.attach route with
    | error e => simp [hr, bind, Except.bind] at ha
    | ok next =>
      rw [hr] at ha
      obtain ⟨hnext, hmode, hhidden⟩ := h.attach hr
      obtain ⟨hr', hmode', hhidden'⟩ := ih hnext ha
      exact ⟨by simpa using hr', hmode'.trans hmode, hhidden'.trans hhidden⟩

/-- Routes can be attached in any order if all of them have a matcher. -/
theorem exists_attachAll (r : Router) (h : ∀ route ∈ routes, ∃ m, route.matcher = .ok m) :
    ∃ r', r.attachAll routes = .ok r' := by
  induction routes generalizing r with
  | nil => exact ⟨r, rfl⟩
  | cons route routes ih =>
    obtain ⟨m, hm⟩ := h route List.mem_cons_self
    obtain ⟨r', hr'⟩ := ih { r with entries := r.entries ++ [⟨route, m⟩] }
      fun other ho => h other (List.mem_cons_of_mem _ ho)
    refine ⟨r', ?_⟩
    rw [attachAll, List.foldlM_cons, attach, hm]
    exact hr'

theorem IsOf.exists_matcher (h : r.IsOf routes) (hr : route ∈ routes) :
    ∃ m, route.matcher = .ok m := by
  rw [← h.routes] at hr
  obtain ⟨e, he, rfl⟩ := List.mem_map.mp hr
  exact ⟨e.matcher, h.matcher e he⟩

/-- The entries that match a path are those whose routes cover it. -/
theorem IsOf.mem_matching (h : r.IsOf routes) {path : String} {x : Entry × ℕ} :
    x ∈ r.matching path ↔ r.entries[x.2]? = some x.1 ∧ x.1.route.Covers path := by
  rw [matching, List.mem_filter, List.mem_zipIdx_iff_getElem?]
  refine and_congr_right fun hx => ?_
  rw [Route.covers_iff (h.matcher x.1 (List.mem_of_getElem? hx))]

theorem IsOf.getElem? (h : r.IsOf routes) {place : ℕ} :
    routes[place]? = some route ↔ ∃ e, r.entries[place]? = some e ∧ e.route = route := by
  rw [← h.routes, List.getElem?_map, Option.map_eq_some_iff]

/-- Matching entries are in the order of their declaration. -/
theorem pairwise_matching (r : Router) (path : String) :
    (r.matching path).Pairwise (·.2 < ·.2) := by
  apply List.Pairwise.filter
  have h := List.pairwise_lt_range' (s := 0) (n := r.entries.length)
  rwa [← List.zipIdx_map_snd, List.pairwise_map] at h

end Attaching

section Running

/-- A route with the handler that is attached to it. -/
abbrev Member := Route × (Request → Serving Response)

/-- Whether a router of the given members runs the handler of the one at a place, which gets the
request as it's entered by its route. -/
structure Runs (r : Router) (members : List Member) (req : Request) (place : ℕ)
    (member : Member) : Prop where
  declared : members[place]? = some member
  covers : member.1.Covers req.uri.path
  serve : ∃ matcher seen, member.1.matcher = .ok matcher ∧
    enter ⟨member.1, matcher⟩ req = some seen ∧
    ∀ w, r.serve (members.map (·.2)) req w = member.2 seen w

/-- Whether no other member that matches a path comes before the one at a place. -/
def IsBest (members : List Member) (path : String) (place : ℕ) (member : Member) : Prop :=
  ∀ place' other, members[place']? = some other → other.1.Covers path →
    precedence member.1 place ≤ precedence other.1 place'

variable {r r₀ : Router} {members members' : List Member} {req : Request}

/-- A router runs a best match if there's any match. -/
theorem IsOf.exists_runs (h : r.IsOf (members.map (·.1))) (hm : r.mode = .best)
    (hh : (!req.isInternal && r.isHidden req.uri.path) = false)
    (hc : ∃ member ∈ members, member.1.Covers req.uri.path) :
    ∃ place member, r.Runs members req place member ∧
      IsBest members req.uri.path place member := by
  -- A member that matches is found among the matching entries, at its place.
  have hmem (place : ℕ) (other : Member) (ho : members[place]? = some other)
      (hcovers : other.1.Covers req.uri.path) :
      ∃ e, (e, place) ∈ r.matching req.uri.path ∧ e.route = other.1 := by
    obtain ⟨e, he, hroute⟩ := h.getElem?.mp (by rw [List.getElem?_map, ho, Option.map_some])
    exact ⟨e, h.mem_matching.mpr ⟨he, hroute ▸ hcovers⟩, hroute⟩
  cases hmatch : r.matching req.uri.path with
  | nil =>
    obtain ⟨member, hmember, hcovers⟩ := hc
    obtain ⟨place, hplace⟩ := List.mem_iff_getElem?.mp hmember
    obtain ⟨e, he, -⟩ := hmem place member hplace hcovers
    simp [hmatch] at he
  | cons first rest =>
    have hbest := precedence_foldl_better (hmatch ▸ r.pairwise_matching req.uri.path)
    have hsel := foldl_better_mem first rest
    rw [← hmatch] at hsel hbest
    generalize hselected : rest.foldl better first = selected at hbest hsel
    obtain ⟨⟨route, m⟩, place⟩ := selected
    obtain ⟨he, hcovers⟩ := h.mem_matching.mp hsel
    have hroute : route.matcher = .ok m := h.matcher _ (List.mem_of_getElem? he)
    obtain ⟨⟨found, handler⟩, hplace, hfound⟩ : ∃ member, members[place]? = some member ∧
        member.1 = route := by
      rw [← Option.map_eq_some_iff, ← List.getElem?_map]
      exact h.getElem?.mpr ⟨_, he, rfl⟩
    obtain rfl : route = found := hfound.symm
    obtain ⟨seen, hseen⟩ : ∃ seen, enter ⟨route, m⟩ req = some seen := by
      have ha := (Route.covers_iff hroute).mp hcovers
      obtain ⟨values, hv⟩ := Option.isSome_iff_exists.mp ha
      rw [enter, hv]
      exact ⟨_, rfl⟩
    refine ⟨place, _, ⟨hplace, hcovers, m, seen, hroute, hseen, fun w => ?_⟩, ?_⟩
    · have hs : r.select? req w = some ⟨place, seen, false⟩ := by
        simp [select?, route?, hh, hmatch, hm, select, hselected, hseen]
      rw [serve_apply, hs]
      simp [advance, hm, hplace]
    · intro place' other ho hcovers'
      obtain ⟨e, hmatching, hroute'⟩ := hmem place' other ho hcovers'
      rw [← hroute']
      exact hbest (e, place') hmatching

/-- What the best match looks like doesn't depend on the places. -/
theorem IsBest.rank_eq (hp : members.Perm members') {path : String} {place place' : ℕ}
    {member member' : Member} (h : IsBest members path place member)
    (h' : IsBest members' path place' member') (hm : members[place]? = some member)
    (hm' : members'[place']? = some member') (hc : member.1.Covers path)
    (hc' : member'.1.Covers path) : Rank.of member'.1 = Rank.of member.1 := by
  obtain ⟨i, hi⟩ := List.mem_iff_getElem?.mp (hp.mem_iff.mpr (List.mem_of_getElem? hm'))
  obtain ⟨j, hj⟩ := List.mem_iff_getElem?.mp (hp.mem_iff.mp (List.mem_of_getElem? hm))
  apply Rank.key_injective
  apply le_antisymm
  · exact Prod.Lex.monotone_fst _ _ (h' j member hj hc)
  · exact Prod.Lex.monotone_fst _ _ (h i member' hi hc')

/-- An exact route without variables is preferred over all others that match its path. -/
theorem IsBest.eq_exact {path : String} {place : ℕ} {member exact : Member}
    (h : IsBest members path place member) (hc : member.1.Covers path) (he : exact ∈ members)
    (hr : exact.1 = ⟨path, .exact⟩) (hv : exact.1.variableNames = [])
    (hm : ∃ m, exact.1.matcher = .ok m) : member.1 = ⟨path, .exact⟩ := by
  obtain ⟨m, hm⟩ := hm
  have hcovers : exact.1.Covers path := by
    rw [Route.covers_iff_eq hm (by rw [hr]) (Route.keys_eq_nil_of_names hm hv), hr]
  obtain ⟨i, hi⟩ := List.mem_iff_getElem?.mp he
  have hle : (Rank.of member.1).key ≤ (Rank.of exact.1).key :=
    Prod.Lex.monotone_fst _ _ (h i exact hi hcovers)
  have hexact : exact.1.isPrefixRoute = false := by simp [hr, Route.isPrefixRoute]
  -- Nothing comes before exact routes, and nothing before those of them without variables.
  simp only [Rank.key, Rank.of, hexact, hv, Prod.Lex.toLex_le_toLex] at hle
  have hprefix : member.1.isPrefixRoute = false ∧ member.1.variableNames = [] := by
    rcases hle with hlt | ⟨heq, hle⟩
    · simp [Bool.lt_iff] at hlt
    · refine ⟨heq, ?_⟩
      rcases hle with hlt | ⟨heq, -⟩
      · simp at hlt
      · simpa using heq
  obtain ⟨hp, hnames⟩ := hprefix
  have hmatching : member.1.matching = .exact := by
    cases hmm : member.1.matching with
    | exact => rfl
    | startsWith => simp [Route.isPrefixRoute, hmm] at hp
  obtain ⟨m', hm', ha⟩ := hc
  have hpath : path = member.1.path :=
    (Route.covers_iff_eq hm' hmatching (Route.keys_eq_nil_of_names hm' hnames)).mp ⟨m', hm', ha⟩
  rw [hpath, ← hmatching]

/-- Of any list of members that are attached to an empty router in mode `best`, the router runs one
that matches, unless no member matches, or the path is hidden from the request. No other member that
matches comes before it. If the path itself is attached as an exact route without variables, that's
the route of the one that is run. In any other order, the members can be attached as well, and the
one that is run has the same rank then. -/
theorem runs_best (hmode : r₀.mode = .best) (hempty : r₀.entries = [])
    (hr : r₀.attachAll (members.map (·.1)) = .ok r)
    (hh : (!req.isInternal && r.isHidden req.uri.path) = false)
    (hc : ∃ member ∈ members, member.1.Covers req.uri.path) :
    ∃ place member, r.Runs members req place member ∧
      IsBest members req.uri.path place member ∧
      (∀ exact ∈ members, exact.1 = ⟨req.uri.path, .exact⟩ → exact.1.variableNames = [] →
        member.1 = ⟨req.uri.path, .exact⟩) ∧
      ∀ members', members.Perm members' → ∃ r' place' member',
        r₀.attachAll (members'.map (·.1)) = .ok r' ∧ r'.Runs members' req place' member' ∧
        Rank.of member'.1 = Rank.of member.1 := by
  have h₀ : r₀.IsOf [] := ⟨by simp [hempty], by simp [hempty]⟩
  obtain ⟨hof, hm, hhidden⟩ := h₀.attachAll hr
  rw [List.nil_append] at hof
  obtain ⟨place, member, hruns, hbest⟩ := hof.exists_runs (hm.trans hmode) hh hc
  refine ⟨place, member, hruns, hbest, fun exact he hexact hv => ?_, fun members' hp => ?_⟩
  · exact hbest.eq_exact hruns.covers he hexact hv
      (hof.exists_matcher (List.mem_map_of_mem he))
  · have hmatchers : ∀ route ∈ members'.map (·.1), ∃ m, route.matcher = .ok m :=
      fun route hroute => hof.exists_matcher ((hp.map _).mem_iff.mpr hroute)
    obtain ⟨r', hr'⟩ := r₀.exists_attachAll hmatchers
    obtain ⟨hof', hm', hhidden'⟩ := h₀.attachAll hr'
    have hh' : (!req.isInternal && r'.isHidden req.uri.path) = false := by
      rw [← hh, isHidden, isHidden, hhidden', hhidden]
    have hc' : ∃ member ∈ members', member.1.Covers req.uri.path := by
      obtain ⟨other, ho, hcovers⟩ := hc
      exact ⟨other, hp.mem_iff.mp ho, hcovers⟩
    rw [List.nil_append] at hof'
    obtain ⟨place', member', hruns', hbest'⟩ := hof'.exists_runs (hm'.trans hmode) hh' hc'
    exact ⟨r', place', member', hr', hruns', hbest.rank_eq hp hbest' hruns.declared
      hruns'.declared hruns.covers hruns'.covers⟩

/-- A shop whose routes overlap. Each handler has a status of its own. -/
def shopMembers : List Member :=
  [(⟨"/shop/", .startsWith⟩, fun _ => return .ofStatus .partialContent),
    (⟨"/shop/{item}/", .exact⟩, fun _ => return .ofStatus .accepted),
    (⟨"/shop/hat/", .exact⟩, fun _ => return .ofStatus .created),
    (⟨"/shop/{other}/", .exact⟩, fun _ => return .ofStatus .noContent)]

/-- All routes match the path of the hat, whose own route is preferred in any order. -/
theorem runs_best_shop : ∃ r place member,
    attachAll {} (shopMembers.map (·.1)) = .ok r ∧
    r.Runs shopMembers { uri := ⟨"/shop/hat/", none⟩ } place member ∧
    member.1 = ⟨"/shop/hat/", .exact⟩ ∧ ∃ r' place' member',
      attachAll {} (shopMembers.reverse.map (·.1)) = .ok r' ∧
      r'.Runs shopMembers.reverse { uri := ⟨"/shop/hat/", none⟩ } place' member' ∧
      Rank.of member'.1 = ⟨false, 0, 10⟩ := by
  have hall : ∀ member ∈ shopMembers, member.1.Covers "/shop/hat/" := by decide +kernel
  have hmem : shopMembers[2] ∈ shopMembers := List.getElem_mem (by decide)
  have hmatchers : ∀ route ∈ shopMembers.map (·.1), ∃ m, route.matcher = .ok m := by
    intro route hroute
    obtain ⟨member, hmember, rfl⟩ := List.mem_map.mp hroute
    obtain ⟨m, hm, -⟩ := hall member hmember
    exact ⟨m, hm⟩
  obtain ⟨r, hr⟩ := exists_attachAll {} hmatchers
  have hhidden : r.hidden = [] := (IsOf.attachAll ⟨rfl, by simp⟩ hr).2.2
  have hopen : (!Request.isInternal { uri := ⟨"/shop/hat/", none⟩ } && r.isHidden "/shop/hat/") =
      false := by simp [isHidden, hhidden]
  obtain ⟨place, member, hruns, -, hexact, hperm⟩ :=
    runs_best rfl rfl hr hopen ⟨_, hmem, hall _ hmem⟩
  have hmember : member.1 = ⟨"/shop/hat/", .exact⟩ := hexact _ hmem rfl (by decide +kernel)
  obtain ⟨r', place', member', hr', hruns', hrank⟩ := hperm _ (List.reverse_perm _).symm
  refine ⟨r, place, member, hr, hruns, hmember, r', place', member', hr', hruns', ?_⟩
  rw [hrank, hmember]
  decide +kernel

end Running

end Router

end RequestRouting
