import RequestRouting.Proofs.Routing.Lowering

/-!
# Nested routers

A router whose only route is a prefix hands what is below the prefix to another router. The two can
be flattened into a single one, which has the prefix in front of all routes. In any run, requests are
routed to the same handlers then.
-/

namespace RequestRouting

namespace Router

variable {a : String}

/-- The entry for everything. -/
def Entry.all : Entry where
  route := ⟨"/", .startsWith⟩
  matcher := ⟨[[.char '/'], [.char '/', .catchAll "rr".toList []]]⟩

theorem isClean_all : Entry.all.IsClean :=
  ⟨⟨"/*", by decide +kernel⟩, by decide +kernel, by decide +kernel, by decide +kernel⟩

theorem read_all (mode : RoutingMode) (place : Nat) :
    read mode place ["/*"] [] = .ok { mode, place, entries := [Entry.all] } := by
  have hp : Route.parse "/*" = .ok Entry.all.route := by decide +kernel
  have ha : ({ mode, place } : Router).attachKey "/*" =
      .ok { mode, place, entries := [Entry.all] } :=
    attachKey_eq_ok.mpr ⟨_, _, hp, isClean_all.matcher, rfl⟩
  unfold read
  rw [List.foldlM_cons, ha]
  rfl

/-- Below a prefix, the entry for everything hands requests down without the prefix. -/
theorem exists_enter_all (ha : IsLead a) {req : Request} {rest : String}
    (hp : req.uri.path = a ++ ("/" ++ rest)) :
    ∃ mid, enter (Entry.all.under a) req = some mid ∧ Descends a req mid := by
  have hclean := isClean_all.under ha
  have hk : (Entry.all.under a).route.keys = [] := by
    rw [Entry.under, Route.keys_under ha.opening ha.closing]
    decide +kernel
  obtain ⟨values, hv, hr⟩ := Route.resolve?_append hclean.matcher rfl hk rest
  have hp' : (Entry.all.under a).route.path ++ rest = req.uri.path := by
    rw [hp, ← String.append_assoc]
    rfl
  have hbelow : below req.uri.path rest = "/" ++ rest := by
    have hdrop : Text.dropTail? rest req.uri.path = some (a ++ "/") :=
      Text.dropTail?_eq_some.mpr hp'.symm
    have hslash : Text.endsWith "/" (a ++ "/") = true := Text.endsWith_iff.mpr ⟨a, rfl⟩
    have hrest : Text.startsWith "/" ("/" ++ rest) = true := Text.startsWith_iff.mpr ⟨rest, rfl⟩
    simp only [below, hdrop, hslash, if_true, hrest, Bool.or_true]
  have hpath : (Entry.all.under a).path? req.uri.path = some ("/" ++ rest) := by
    rw [Entry.path?, ← hp', hv, Option.map_some, hr, hp', hbelow]
    rfl
  obtain ⟨mid, hmid, hpath⟩ := exists_enter hpath
  obtain ⟨-, attributes, hseen, hattr⟩ := exists_of_enter hmid
  refine ⟨mid, hmid, by rw [hpath, hp], sameParts_enter hclean hmid, ?_⟩
  intro key hb hr
  rw [hseen]
  refine hattr key hb fun hn => ?_
  rcases Entry.mem_keys_of_mem_names hclean.matcher hn with hkey | hkey
  · rw [hk] at hkey
    cases hkey
  · exact hr hkey

variable {mode : RoutingMode} {place : Nat} {inner outer flat : Router}

/-- What a router selects for a request, and the world after that. -/
def step (r : Router) (req : Request) (w : World) : Option Selection × World :=
  (r.select? req w, r.advance (r.select? req w) w)

/-- What is selected for a request by a router that is the handler of another one. -/
def through (outer inner : Router) (req : Request) (w : World) : Option Selection × World :=
  match outer.step req w with
  | (none, w) => (none, w)
  | (some s, w) => inner.step s.req w

/-- A request is handed to the handler that is selected, and answered by 404 if there is none. -/
def hand (handlers : List (Request → Serving Response)) :
    Option Selection × World → Option (Response × World)
  | (none, w) => some (.ofStatus .notFound, w)
  | (some s, w) => ((handlers[s.place]?).getD fun _ => return .ofStatus .notFound) s.req w

theorem serve_eq_hand (r : Router) (handlers : List (Request → Serving Response)) (req : Request)
    (w : World) : r.serve handlers req w = hand handlers (r.step req w) := by
  rw [serve_apply, step]
  cases r.select? req w <;> rfl

/-- Drawing a number makes no turn. -/
theorem turns_draw (w : World) : w.draw.2.turns = w.turns := by
  have hd (chance : Nat) : ({ w with chance } : World).turns = w.turns := rfl
  exact hd _

theorem turns_advance (r : Router) (s : Option Selection) (w : World) : (r.advance s w).turns =
    if s.any (·.isTurn) then w.turns.modify r.place (· + 1) else w.turns := by
  have hd : (if r.mode = .random then w.draw.2 else w).turns = w.turns := by
    split
    · exact turns_draw w
    · rfl
  unfold advance
  dsimp only
  split
  · exact congrArg (Array.modify · r.place (· + 1)) hd
  · exact hd

/-- The turns that a router counted, which depend on nothing else. -/
theorem getElem?_turns_advance (r : Router) (s : Option Selection) (w : World) :
    (r.advance s w).turns[r.place]? =
      (w.turns[r.place]?).map (if s.any (·.isTurn) then (· + 1) else id) := by
  rw [turns_advance]
  split
  · rw [Array.getElem?_modify, if_pos rfl]
  · rw [Option.map_id]
    rfl

/-- A router with a prefix for its only route hands down whatever is below the prefix, and nothing
else. -/
theorem IsUnder.step_all (h : IsUnder a { mode, place, entries := [Entry.all] } outer)
    (ha : IsLead a) (req : Request) (w : World) : ∃ w', w'.turns = w.turns ∧
      ((outer.step req w = (none, w') ∧
        ¬∃ rest, req.uri.path = a ++ rest ∧ Text.startsWith "/" rest = true) ∨
      ∃ mid, outer.step req w = (some ⟨0, mid, false⟩, w') ∧ Descends a req mid) := by
  by_cases hp : ∃ rest, req.uri.path = a ++ rest ∧ Text.startsWith "/" rest = true
  · obtain ⟨rest, hp, hs⟩ := hp
    obtain ⟨rest, rfl⟩ := Text.startsWith_iff.mp hs
    obtain ⟨mid, hmid, hd⟩ := exists_enter_all ha hp
    have hh : outer.hidden = [] := h.hidden
    have haccepts : (Entry.all.under a).matcher.accepts req.uri.path = true := by
      obtain ⟨values, hv, -⟩ := Option.map_eq_some_iff.mp hmid
      rw [RouteMatcher.accepts, hv]
      rfl
    have hmatch : outer.matching req.uri.path = [(Entry.all.under a, 0)] := by
      rw [Router.matching, h.entries]
      simp [haccepts]
    have hselect : outer.select? req w = some ⟨0, mid, false⟩ :=
      route?_of_matching (by simp [Router.isHidden, hh]) hmatch hmid _ _
    refine ⟨_, ?_, Or.inr ⟨mid, by rw [step, hselect], hd⟩⟩
    rw [turns_advance]
    rfl
  · have hselect : outer.select? req w = none := h.route?_eq_none hp _ _
    refine ⟨_, ?_, Or.inl ⟨by rw [step, hselect], hp⟩⟩
    rw [turns_advance]
    rfl

/-- The handler of a router whose only route is a prefix serves requests through that router. -/
theorem IsUnder.serve_through (h : IsUnder a { mode, place, entries := [Entry.all] } outer)
    (ha : IsLead a) (handlers : List (Request → Serving Response)) (req : Request) (w : World) :
    outer.serve [inner.serve handlers] req w = hand handlers (outer.through inner req w) := by
  obtain ⟨w', -, ⟨hstep, -⟩ | ⟨mid, hstep, -⟩⟩ := h.step_all ha req w
  · rw [serve_eq_hand, through, hstep]
    rfl
  · rw [serve_eq_hand, through, hstep]
    exact serve_eq_hand inner handlers mid w'

/-- One request is routed alike if the two routers have made the same number of selections in
rotation, which they have afterwards, too. -/
theorem alike_step (houter : IsUnder a { mode, place, entries := [Entry.all] } outer)
    (hflat : IsUnder a inner flat) (ha : IsLead a) (hm : inner.mode ≠ .random) {w w' : World}
    (hw : w.turns[inner.place]? = w'.turns[flat.place]?) (req : Request) :
    Option.Rel (Alike req) (outer.through inner req w).1 (flat.step req w').1 ∧
      (outer.through inner req w).2.turns[inner.place]? =
        (flat.step req w').2.turns[flat.place]? := by
  obtain ⟨w₁, hw₁, ⟨hstep, hp⟩ | ⟨mid, hstep, hd⟩⟩ := houter.step_all ha req w
  · have hselect : flat.select? req w' = none := hflat.route?_eq_none hp _ _
    rw [through, hstep, step, hselect, getElem?_turns_advance]
    dsimp only
    rw [hw₁]
    exact ⟨.none, by simpa using hw⟩
  · have hturns : w₁.turns.getD inner.place 0 = w'.turns.getD flat.place 0 := by
      rw [Array.getD_eq_getD_getElem?, Array.getD_eq_getD_getElem?, hw₁, hw]
    have hrel : Option.Rel (Alike req) (inner.select? mid w₁) (flat.select? req w') := by
      rw [select?, select?, hturns]
      exact hflat.alike_route? ha hm hd _ _ _
    have hturn : (inner.select? mid w₁).any (·.isTurn) = (flat.select? req w').any (·.isTurn) := by
      generalize inner.select? mid w₁ = x at hrel
      generalize flat.select? req w' = y at hrel
      cases hrel with
      | none => rfl
      | some h => exact h.isTurn
    rw [through, hstep]
    refine ⟨hrel, ?_⟩
    simp only [step]
    rw [getElem?_turns_advance, getElem?_turns_advance, hturn, hw₁, hw]

/-- A run: the requests a router gets, with what is selected for them. In between, the world changes
in any way, except for the number of selections made in rotation. -/
inductive Run (select : Request → World → Option Selection × World) (place : Nat) :
    World → List (Request × Option Selection) → Prop where
  | nil (w : World) : Run select place w []
  | cons {w w' : World} {req : Request} {rest : List (Request × Option Selection)}
      (hw : w'.turns[place]? = (select req w).2.turns[place]?) (hr : Run select place w' rest) :
      Run select place w ((req, (select req w).1) :: rest)

/-- Runs for the same requests are alike if they start with the same number of turns. -/
theorem alike_of_runs (houter : IsUnder a { mode, place, entries := [Entry.all] } outer)
    (hflat : IsUnder a inner flat) (ha : IsLead a) (hm : inner.mode ≠ .random) {w w' : World}
    (hw : w.turns[inner.place]? = w'.turns[flat.place]?)
    {nested plain : List (Request × Option Selection)}
    (hn : Run (outer.through inner) inner.place w nested) (hf : Run flat.step flat.place w' plain)
    (hr : nested.map (·.1) = plain.map (·.1)) :
    List.Forall₂ (fun x y => Option.Rel (Alike x.1) x.2 y.2) nested plain := by
  -- The two runs are in step: after each request, both routers have counted the same turns.
  induction hn generalizing w' plain with
  | nil w =>
    cases hf with
    | nil => exact .nil
    | cons hw hr => cases hr
  | cons hk hn ih =>
    cases hf with
    | nil => cases hr
    | cons hk' hf =>
      rw [List.map_cons, List.map_cons, List.cons.injEq] at hr
      obtain ⟨rfl, hr⟩ := hr
      obtain ⟨hrel, hturns⟩ := alike_step houter hflat ha hm hw _
      exact .cons hrel (ih ((hk.trans hturns).trans hk'.symm) hf hr)

/-- What is selected for requests if nothing happens in between. -/
def trace (select : Request → World → Option Selection × World) :
    List Request → World → List (Request × Option Selection)
  | [], _ => []
  | req :: rest, w => (req, (select req w).1) :: trace select rest (select req w).2

theorem run_trace (select : Request → World → Option Selection × World) (place : Nat)
    (reqs : List Request) (w : World) : Run select place w (trace select reqs w) := by
  induction reqs generalizing w with
  | nil => exact .nil w
  | cons req rest ih => exact .cons rfl (ih _)

theorem map_trace (select : Request → World → Option Selection × World) (reqs : List Request)
    (w : World) : (trace select reqs w).map (·.1) = reqs := by
  induction reqs generalizing w with
  | nil => rfl
  | cons req rest ih => rw [trace, List.map_cons, ih]

/-- Nested routers are like a single one. A router that is attached to another one as its only
handler, below a cleaned prefix without variables, selects in any run of requests what the router
selects that has the prefix in front of all routes, hidden ones included: the same handlers, with
the same references and values of variables, or none. -/
theorem exists_flattened (ha : IsLead a) {keys hidden : List String}
    (hk : ∀ key ∈ keys, IsCleanKey key) (hr : read mode place keys hidden = .ok inner)
    (hm : inner.mode ≠ .random) (outerMode : RoutingMode) (outerPlace flatPlace : Nat) :
    ∃ outer flat, read outerMode outerPlace [a ++ "/*"] [] = .ok outer ∧
      read mode flatPlace (keys.map (a ++ ·)) (hidden.map (a ++ ·)) = .ok flat ∧
      (∀ handlers req w, outer.serve [inner.serve handlers] req w =
        hand handlers (outer.through inner req w)) ∧
      ∀ w w' nested plain, w.turns[inner.place]? = w'.turns[flat.place]? →
        Run (outer.through inner) inner.place w nested → Run flat.step flat.place w' plain →
        nested.map (·.1) = plain.map (·.1) →
        List.Forall₂ (fun x y => Option.Rel (Alike x.1) x.2 y.2) nested plain := by
  have hall : ∀ key ∈ ["/*"], IsCleanKey key := by decide +kernel
  obtain ⟨outer, houter, hunder⟩ := exists_read ha hall (read_all outerMode outerPlace) outerPlace
  obtain ⟨flat, hflat, hunder'⟩ := exists_read ha hk hr flatPlace
  refine ⟨outer, flat, houter, hflat, hunder.serve_through ha, ?_⟩
  intro w w' nested plain hw hnested hplain hreqs
  exact alike_of_runs hunder hunder' ha hm hw hnested hplain hreqs

/-- Two prefixes, one of which is a variable, and a path below the other one. -/
def shelfKeys : List String := ["/b/*", "/\x7bid\x7d/*", "/b/x"]

/-- A hidden prefix. -/
def shelfHidden : List String := ["/b/secret/*"]

/-- Requests for a shelf: twice for a path in rotation, for a hidden path from outside and after a
capture, for a path without slash, and for one that isn't below the prefix. -/
def shelfRequests : List Request :=
  [{ uri := ⟨"/shop/b/x", none⟩ }, { uri := ⟨"/shop/b/x", none⟩ },
    { uri := ⟨"/shop/b/secret/", none⟩ },
    { uri := ⟨"/shop/b/secret/", none⟩, attributes := ⟨[(Attribute.history, "/shop/b/secret/")]⟩ },
    { uri := ⟨"/shop", none⟩ }, { uri := ⟨"/other/x", none⟩ }]

/-- The world the shelf is served in. -/
def shelfWorld : World := { turns := #[0, 0, 0] }

theorem exists_flattened_shelf : IsLead "/shop" ∧ (∀ key ∈ shelfKeys, IsCleanKey key) ∧
    ∃ inner outer flat, read .next 0 shelfKeys shelfHidden = .ok inner ∧ inner.mode ≠ .random ∧
      read .best 1 ["/shop" ++ "/*"] [] = .ok outer ∧
      read .next 2 (shelfKeys.map ("/shop" ++ ·)) (shelfHidden.map ("/shop" ++ ·)) = .ok flat ∧
      List.Forall₂ (fun x y => Option.Rel (Alike x.1) x.2 y.2)
        (trace (outer.through inner) shelfRequests shelfWorld)
        (trace flat.step shelfRequests shelfWorld) ∧
      (trace flat.step shelfRequests shelfWorld).map (fun x => x.2.map (·.place)) =
        [some 0, some 1, none, some 0, none, none] := by
  have ha : IsLead "/shop" := by decide +kernel
  have hk : ∀ key ∈ shelfKeys, IsCleanKey key := by decide +kernel
  have hinner : (read .next 0 shelfKeys shelfHidden).toOption.map (fun r => (r.mode, r.place)) =
      some (.next, 0) := by decide +kernel
  have hflat : (read .next 2 (shelfKeys.map ("/shop" ++ ·))
      (shelfHidden.map ("/shop" ++ ·))).toOption.map (fun r => (r.place,
        (trace r.step shelfRequests shelfWorld).map fun x => x.2.map (·.place))) =
      some (2, [some 0, some 1, none, some 0, none, none]) := by decide +kernel
  cases hr : read .next 0 shelfKeys shelfHidden with
  | error e =>
    rw [hr] at hinner
    cases hinner
  | ok inner =>
    rw [hr] at hinner
    obtain ⟨hmode, hplace⟩ : inner.mode = .next ∧ inner.place = 0 := by
      simpa [Except.toOption] using hinner
    have hm : inner.mode ≠ .random := by
      rw [hmode]
      decide
    obtain ⟨outer, flat, houter, hr', -, hruns⟩ := exists_flattened ha hk hr hm .best 1 2
    rw [hr'] at hflat
    obtain ⟨hplace', htrace⟩ : flat.place = 2 ∧
        (trace flat.step shelfRequests shelfWorld).map (fun x => x.2.map (·.place)) =
          [some 0, some 1, none, some 0, none, none] := by
      simpa only [Except.toOption, Option.map_some, Option.some.injEq, Prod.mk.injEq] using hflat
    refine ⟨ha, hk, inner, outer, flat, rfl, hm, houter, hr', ?_, htrace⟩
    refine hruns shelfWorld shelfWorld _ _ ?_ (run_trace _ _ _ _) (run_trace _ _ _ _) ?_
    · rw [hplace, hplace']
      rfl
    · rw [map_trace, map_trace]

end Router

end RequestRouting
