import RequestRouting.Assembly.Component
import RequestRouting.Proofs.Routing.Reference
import RequestRouting.Proofs.Serving

/-!
# Nested routers

A request that a virtual host hands to a mount goes down a stack of routers until a handler that is
no router gets it. Every step of the way moves a piece of the path to the base or leaves both alone,
so the handler that is selected in the end sees the reference that was requested.
-/

namespace RequestRouting

open Request (SameParts sameParts_setAll)

namespace Router

/-- An entry whose route is read from a cleaned URI, and has no variable that is written to the
attribute of the remainder or the base. -/
structure Entry.IsClean (e : Entry) : Prop where
  cleaned : ∃ uri, Route.parse (clean uri) = .ok e.route
  matcher : e.route.matcher = .ok e.matcher
  remainder : Route.remainder ∉ e.route.keys
  base : Attribute.base ∉ e.route.keys

namespace Entry.IsClean

variable {e : Entry} {ts : List Pattern.Token}

theorem spaced (he : e.IsClean) : Spaced '/' e.route.path.toList := by
  obtain ⟨uri, hu⟩ := he.cleaned
  have hs := spaced_clean uri
  rw [← Route.text_of_parse hu, Route.text] at hs
  split at hs
  · exact hs
  · rw [String.toList_append] at hs
    exact hs.left

/-- A slash behind a variable doesn't double another one. -/
theorem spaced_slash (he : e.IsClean) (hb : e.route.isBounded = true) :
    Spaced '/' (e.route.path.toList ++ ['/']) := by
  obtain ⟨p, hp⟩ := Text.endsWith_iff.mp hb
  refine List.isChain_append.mpr ⟨he.spaced, List.isChain_singleton '/', ?_⟩
  intro x hx y hy
  rw [hp] at hx
  obtain rfl : '\x7d' = x := by simpa using hx
  rintro ⟨h, -⟩
  exact absurd h (by decide)

end Entry.IsClean

/-- The value of the remainder, if a tail has any, is the end of the tail, and what stands before it
has no doubled slashes. -/
theorem spaced_before_remainder {e : Entry} {ts : List Pattern.Token} {lead tail : List Char}
    {us vs : List (String × String)} (he : e.IsClean)
    (ht : Pattern.Reads e.route.path.toList ts) (hc : ∀ t ∈ ts, t.isCatchAll = false)
    (hl : Pattern.Fills ts lead us) (hv : Route.Tail e.route.isBounded tail vs) :
    ∃ before, lead ++ tail = before ++ ((Route.remainder? (us ++ vs)).getD "").toList ∧
      Spaced '/' before := by
  have hs : Spaced '/' lead := hl.spaced hc (ht.spaced he.spaced)
  have hu : Route.remainder? (us ++ vs) = Route.remainder? vs := by
    refine Route.remainder?_append ?_ vs
    rw [hl.keys, ← Route.keys_of_reads ht]
    exact he.remainder
  have hslash (hb : e.route.isBounded = true) : Spaced '/' (lead ++ ['/']) := by
    have hr := ht.append (.char (by decide) (by decide) .nil : Pattern.Reads ['/'] [.char '/'])
    refine (hl.append hc (.char '/' .nil)).spaced ?_ (hr.spaced (he.spaced_slash hb))
    intro t ht'
    rcases List.mem_append.mp ht' with h | h
    · exact hc t h
    · rw [List.mem_singleton.mp h]
      rfl
  rw [hu]
  generalize hb : e.route.isBounded = bounded at hv
  cases hv with
  | nothing => exact ⟨lead, by simp [Route.remainder?], hs⟩
  | slash => exact ⟨lead ++ ['/'], by simp [Route.remainder?], hslash hb⟩
  | rest text _ => exact ⟨lead, by simp [Route.remainder?], hs⟩
  | below text _ => exact ⟨lead ++ ['/'], by simp [Route.remainder?], hslash hb⟩

theorem not_mem_keys_of_tail {bounded : Bool} {tail : List Char} {vs : List (String × String)}
    (hv : Route.Tail bounded tail vs) : Attribute.base ∉ vs.map (·.1) := by
  have hn : Attribute.base ≠ Route.remainder := by decide
  cases hv with
  | nothing => simp
  | slash => simp
  | rest text _ => simpa using hn
  | below text _ => simpa using hn

/-- The handler of an exact route sees the reference that its router got. -/
theorem sameParts_enter_exact {e : Entry} (hm : e.route.matcher = .ok e.matcher)
    (hr : e.route.matching = .exact) (hb : Attribute.base ∉ e.route.keys) {req req' : Request}
    (h : enter e req = some req') : SameParts req req' := by
  obtain ⟨values, hv, rfl⟩ := Option.map_eq_some_iff.mp h
  obtain ⟨ts, ht, hfill⟩ := Route.resolve?_exact hm hr
  have hk := ((hfill _ _).mp hv).keys
  have hp : e.route.isPrefixRoute = false := by simp [Route.isPrefixRoute, hr]
  simp only [hp, Bool.false_eq_true, if_false]
  refine sameParts_setAll req ?_
  rw [hk, ← Route.keys_of_reads ht]
  exact hb

/-- The handler of a cleaned route sees the reference that its router got. -/
theorem sameParts_enter {e : Entry} (he : e.IsClean) {req req' : Request}
    (h : enter e req = some req') : SameParts req req' := by
  cases hr : e.route.matching with
  | exact => exact sameParts_enter_exact he.matcher hr he.base h
  | startsWith =>
    obtain ⟨values, hv, rfl⟩ := Option.map_eq_some_iff.mp h
    obtain ⟨ts, ht, hc, hfill⟩ := Route.resolve?_prefix he.matcher hr
    obtain ⟨lead, tail, us, vs, hpath, rfl, hl, htail⟩ := hfill _ _ hv
    have hp : e.route.isPrefixRoute = true := by simp [Route.isPrefixRoute, hr]
    have hb : Attribute.base ∉ (us ++ vs).map (·.1) := by
      rw [List.map_append, List.mem_append, not_or, hl.keys, ← Route.keys_of_reads ht]
      exact ⟨he.base, not_mem_keys_of_tail htail⟩
    simp only [hp, if_true]
    obtain ⟨before, hsplit, hs⟩ := spaced_before_remainder he ht hc hl htail
    have hsplit' : (req.setAll (us ++ vs)).uri.path =
        .ofList before ++ (Route.remainder? (us ++ vs)).getD "" := by
      apply String.ext
      simpa [Request.setAll] using hpath.trans hsplit
    exact (sameParts_setAll req hb).trans (sameParts_descend _ hsplit' (by simpa using hs))

theorem foldl_better_mem (first : Entry × Nat) (rest : List (Entry × Nat)) :
    rest.foldl better first ∈ first :: rest := by
  induction rest generalizing first with
  | nil => exact List.mem_singleton_self first
  | cons x rest ih =>
    rcases List.mem_cons.mp (ih (better first x)) with h | h
    · rw [List.foldl_cons, h, better]
      split
      · exact List.mem_cons_of_mem _ List.mem_cons_self
      · exact List.mem_cons_self
    · exact List.mem_cons_of_mem _ (List.mem_cons_of_mem _ h)

theorem getD_mem {α : Type} {first : α} {rest : List α} {x : Option α}
    (h : ∀ a, x = some a → a ∈ first :: rest) : x.getD first ∈ first :: rest := by
  cases x with
  | none => exact List.mem_cons_self
  | some a => exact h a rfl

/-- Every mode selects one of the matching entries. -/
theorem select_mem (mode : RoutingMode) (turn chance : Nat) (first : Entry × Nat)
    (rest : List (Entry × Nat)) : select mode turn chance first rest ∈ first :: rest := by
  cases mode with
  | best => exact foldl_better_mem first rest
  | custom => exact foldl_better_mem first rest
  | first => exact List.mem_cons_self
  | last => exact getD_mem fun a h => List.mem_of_getLast? h
  | random => exact getD_mem fun a h => List.mem_of_getElem? h
  | next => exact getD_mem fun a h => List.mem_of_getElem? h

/-- A request is routed to the entry at the place that is selected, whatever the mode. -/
theorem getElem?_of_route? {r : Router} {turn chance : Nat} {req : Request} {s : Selection}
    (h : r.route? turn chance req = some s) :
    ∃ e, r.entries[s.place]? = some e ∧ enter e req = some s.req := by
  unfold route? at h
  split at h
  · cases h
  · cases hm : r.matching req.uri.path with
    | nil => simp [hm] at h
    | cons first rest =>
      simp only [hm] at h
      obtain ⟨req', he, rfl⟩ := Option.map_eq_some_iff.mp h
      refine ⟨_, ?_, he⟩
      have hsel := select_mem r.mode turn chance first rest
      rw [← hm] at hsel
      exact List.mem_zipIdx_iff_getElem?.mp (List.mem_filter.mp hsel).1

/-- A request is routed to an entry of the router, whatever the mode. -/
theorem route?_eq_some {r : Router} {turn chance : Nat} {req : Request} {s : Selection}
    (h : r.route? turn chance req = some s) :
    ∃ e ∈ r.entries, enter e req = some s.req := by
  obtain ⟨e, he, henter⟩ := getElem?_of_route? h
  exact ⟨e, List.mem_of_getElem? he, henter⟩

/-- The only entry that matches is selected in every mode. -/
theorem route?_of_matching {r : Router} {req req' : Request} {e : Entry} {place : Nat}
    (hh : (!req.isInternal && r.isHidden req.uri.path) = false)
    (hm : r.matching req.uri.path = [(e, place)]) (he : enter e req = some req')
    (turn chance : Nat) : r.route? turn chance req = some ⟨place, req', false⟩ := by
  have hs : select r.mode turn chance (e, place) [] = (e, place) := by
    cases r.mode <;> simp [select, Nat.mod_one]
  simp [route?, hh, hm, hs, he]

/-- What a router selects for a request. -/
def select? (r : Router) (req : Request) (w : World) : Option Selection :=
  r.route? (w.turns.getD r.place 0) w.draw.1 req

/-- The world after a router drew a number and counted a turn, if it does so. -/
def advance (r : Router) (s : Option Selection) (w : World) : World :=
  let w := if r.mode = .random then w.draw.2 else w
  if s.any (·.isTurn) then { w with turns := w.turns.modify r.place (· + 1) } else w

/-- A router hands a request to the handler it selects, and answers by 404 if there is none. -/
theorem serve_apply (r : Router) (handlers : List (Request → Serving Response)) (req : Request)
    (w : World) : r.serve handlers req w =
      match r.select? req w with
      | none => some (.ofStatus .notFound, r.advance none w)
      | some s => ((handlers[s.place]?).getD fun _ => return .ofStatus .notFound) s.req
        (r.advance (some s) w) := by
  unfold serve select? advance
  by_cases hm : r.mode = .random
  all_goals
    simp only [Serving.bind_apply, Serving.get_apply, Option.bind_some, hm, if_true, if_false,
      Serving.set_apply]
    cases r.route? (w.turns.getD r.place 0) w.draw.1 req with
    | none => rfl
    | some s =>
      dsimp only
      cases handlers[s.place]? <;> cases ht : s.isTurn <;> simp [ht]

end Router

namespace Handler

/-- Whether a handler is neither a router nor the root of an application. -/
def isLeaf : Handler → Bool
  | .router _ _ | .layer .applicationRoot _ => false
  | _ => true

/-- A stack of routers, and roots of applications, whose routes are cleaned. -/
inductive IsStack : Handler → Prop where
  | leaf {h : Handler} (hl : h.isLeaf = true) : IsStack h
  | router {r : Router} {handlers : List Handler} (he : ∀ e ∈ r.entries, e.IsClean)
      (hh : ∀ h ∈ handlers, IsStack h) : IsStack (.router r handlers)
  | root {next : Handler} (hn : IsStack next) : IsStack (.layer .applicationRoot next)

/-- A request that a stack gets is handed to a leaf of it, with what has become of the request and
the world. -/
inductive Selects : Handler → Request → World → Handler → Request → World → Prop where
  | leaf {h : Handler} (hl : h.isLeaf = true) (req : Request) (w : World) :
      Selects h req w h req w
  | router {r : Router} {handlers : List Handler} {h leaf : Handler} {req req' : Request}
      {w w' : World} {s : Router.Selection} (hs : r.select? req w = some s)
      (hh : handlers[s.place]? = some h)
      (hn : Selects h s.req (r.advance (some s) w) leaf req' w') :
      Selects (.router r handlers) req w leaf req' w'
  | root {next leaf : Handler} {req req' : Request} {w w' : World}
      (hn : Selects next req.enterApplication w leaf req' w') :
      Selects (.layer .applicationRoot next) req w leaf req' w'

variable {h leaf : Handler} {req req' : Request} {w w' : World}

theorem sameParts_enterApplication (req : Request) : SameParts req req.enterApplication := by
  have hn : Attribute.base ≠ Attribute.root := by decide
  refine ⟨?_, rfl, rfl, rfl, rfl⟩
  simp only [Request.reference_eq, Request.base, Request.enterApplication, Request.set,
    Keyed.get?_insert_of_ne _ hn]

/-- Nothing gets lost or doubled on the way through a stack. -/
theorem Selects.sameParts (hs : Selects h req w leaf req' w') (hc : h.IsStack) :
    SameParts req req' := by
  induction hs with
  | leaf _ req _ => exact .refl req
  | router hs hh _ ih =>
    cases hc with
    | leaf hl => cases hl
    | router he hstack =>
      obtain ⟨e, hm, henter⟩ := Router.route?_eq_some hs
      exact (Router.sameParts_enter (he e hm) henter).trans
        (ih (hstack _ (List.mem_of_getElem? hh)))
  | root _ ih =>
    cases hc with
    | leaf hl => cases hl
    | root hn => exact (sameParts_enterApplication _).trans (ih hn)

theorem runAll_getElem? (jump : Jump) (handlers : List Handler) (index : Nat) :
    (runAll jump handlers)[index]? = (handlers[index]?).map fun h req => h.run jump req := by
  induction handlers generalizing index with
  | nil => rfl
  | cons h rest ih =>
    cases index with
    | zero => rfl
    | succ index => exact ih index

/-- The answer is that of the leaf. -/
theorem Selects.run (hs : Selects h req w leaf req' w') (jump : Jump) :
    h.run jump req w = leaf.run jump req' w' := by
  induction hs with
  | leaf => rfl
  | router hs hh _ ih =>
    rw [Handler.run, Router.serve_apply, hs]
    simp only [runAll_getElem?, hh, Option.map_some, Option.getD_some]
    exact ih
  | root _ ih => exact ih

theorem isLeaf_or (h : Handler) : h.isLeaf = true ∨ (∃ r handlers, h = .router r handlers) ∨
    ∃ next, h = .layer .applicationRoot next := by
  cases h with
  | router r handlers => exact Or.inr (Or.inl ⟨r, handlers, rfl⟩)
  | layer middleware next =>
    cases middleware with
    | applicationRoot => exact Or.inr (Or.inr ⟨next, rfl⟩)
    | _ => exact Or.inl rfl
  | _ => exact Or.inl rfl

/-- Unless a leaf is selected, the answer is 404. -/
theorem run_of_not_selects (h : Handler) (req : Request) (w : World) (jump : Jump)
    (hs : ∀ leaf req' w', ¬Selects h req w leaf req' w') :
    ∃ w', h.run jump req w = some (.ofStatus .notFound, w') := by
  induction hn : sizeOf h using Nat.strongRecOn generalizing h req w with
  | ind n ih =>
    rcases h.isLeaf_or with hl | ⟨r, handlers, rfl⟩ | ⟨next, rfl⟩
    · exact absurd (.leaf hl req w) (hs h req w)
    · rw [Handler.run, Router.serve_apply]
      cases hr : r.select? req w with
      | none => exact ⟨_, rfl⟩
      | some s =>
        simp only [runAll_getElem?]
        cases hh : handlers[s.place]? with
        | none => exact ⟨_, rfl⟩
        | some next =>
          have hlt := List.sizeOf_lt_of_mem (List.mem_of_getElem? hh)
          simp only [Handler.router.sizeOf_spec] at hn
          exact ih _ (by omega) next s.req _
            (fun leaf req' w' hn => hs leaf req' w' (.router hr hh hn)) rfl
    · simp only [Handler.layer.sizeOf_spec] at hn
      exact ih _ (by omega) next req.enterApplication w
        (fun leaf req' w' hn => hs leaf req' w' (.root hn)) rfl

end Handler

end RequestRouting
