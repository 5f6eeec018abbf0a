import RequestRouting.Proofs.Routing.Stack

/-!
# Hidden routes

A router conceals what one of its hidden routes covers: requests from outside get 404 for it, and
nothing is run. Anything else is routed as if no routes were hidden.
-/

namespace RequestRouting

namespace Router

/-- All hidden routes of a router have the matcher of the route. -/
def IsRegular (r : Router) : Prop := ∀ e ∈ r.hidden, e.route.matcher = .ok e.matcher

/-- Whether one of the hidden routes matches a path. -/
def Conceals (r : Router) (path : String) : Prop := ∃ e ∈ r.hidden, e.route.Covers path

variable {r r' : Router} {route : Route}

theorem IsRegular.isHidden_iff (h : r.IsRegular) {path : String} :
    r.isHidden path = true ↔ r.Conceals path := by
  simp only [isHidden, List.any_eq_true, Conceals, Route.Covers]
  constructor
  · rintro ⟨e, he, ha⟩
    exact ⟨e, he, e.matcher, h e he, ha⟩
  · rintro ⟨e, he, m, hm, ha⟩
    rw [h e he] at hm
    obtain rfl := Except.ok.inj hm
    exact ⟨e, he, ha⟩

theorem hide_eq_self_or (r : Router) (route : Route) :
    r.hide route = r ∨ ∃ matcher, route.matcher = .ok matcher ∧
      r.hide route = { r with hidden := r.hidden ++ [⟨route, matcher⟩] } := by
  unfold hide
  split
  · exact Or.inl rfl
  · cases hm : route.matcher with
    | error e => exact Or.inl rfl
    | ok m => exact Or.inr ⟨m, rfl, rfl⟩

theorem IsRegular.hide (h : r.IsRegular) (route : Route) : (r.hide route).IsRegular := by
  obtain he | ⟨m, hm, he⟩ := r.hide_eq_self_or route
  · rwa [he]
  · rw [he]
    intro e hmem
    rcases List.mem_append.mp hmem with hmem | hmem
    · exact h e hmem
    · obtain rfl := List.mem_singleton.mp hmem
      exact hm

theorem mode_hide (r : Router) (route : Route) : (r.hide route).mode = r.mode := by
  obtain he | ⟨m, -, he⟩ := r.hide_eq_self_or route <;> rw [he]

theorem entries_hide (r : Router) (route : Route) : (r.hide route).entries = r.entries := by
  obtain he | ⟨m, -, he⟩ := r.hide_eq_self_or route <;> rw [he]

theorem mem_hidden_hide {e : Entry} (h : e ∈ (r.hide route).hidden) :
    e ∈ r.hidden ∨ e.route = route := by
  obtain he | ⟨m, -, he⟩ := r.hide_eq_self_or route
  · exact Or.inl (he ▸ h)
  · rw [he] at h
    rcases List.mem_append.mp h with h | h
    · exact Or.inl h
    · exact Or.inr (congrArg Entry.route (List.mem_singleton.mp h))

theorem Conceals.hide {path : String} (h : r.Conceals path) (route : Route) :
    (r.hide route).Conceals path := by
  obtain he | ⟨m, -, he⟩ := r.hide_eq_self_or route
  · rwa [he]
  · obtain ⟨e, hmem, hc⟩ := h
    exact ⟨e, by rw [he]; exact List.mem_append_left _ hmem, hc⟩

/-- A hidden route conceals what it covers. -/
theorem conceals_hide (r : Router) {path : String} (h : route.Covers path) :
    (r.hide route).Conceals path := by
  unfold Router.hide
  split
  · rename_i hany
    obtain ⟨e, hmem, he⟩ := List.any_eq_true.mp hany
    obtain rfl : e.route = route := by simpa using he
    exact ⟨e, hmem, h⟩
  · obtain ⟨m, hm, ha⟩ := h
    simp only [hm]
    exact ⟨⟨route, m⟩, List.mem_append_right _ (List.mem_singleton_self _), m, hm, ha⟩

theorem eq_of_attach (h : r.attach route = .ok r') :
    ∃ e, r' = { r with entries := r.entries ++ [e] } := by
  unfold attach at h
  cases hm : route.matcher with
  | error e => simp [hm, Except.map] at h
  | ok m =>
    obtain rfl : _ = r' := by simpa [hm, Except.map] using h
    exact ⟨_, rfl⟩

/-- What a router answers a request from outside for a concealed path with. -/
theorem serve_of_conceals (hr : r.IsRegular) (handlers : List (Request → Serving Response))
    {req : Request} (hi : req.isInternal = false) (h : r.Conceals req.uri.path) (w : World) :
    r.serve handlers req w = some (.ofStatus .notFound, r.advance none w) := by
  have hn : r.select? req w = none := by
    simp [select?, route?, hi, hr.isHidden_iff.mpr h]
  rw [serve_apply, hn]

/-- It only counts whether the path of a request is hidden, not by which routes. -/
theorem serve_congr_hidden (r : Router) (hidden : List Entry)
    (handlers : List (Request → Serving Response)) {req : Request}
    (h : r.isHidden req.uri.path = { r with hidden }.isHidden req.uri.path) (w : World) :
    r.serve handlers req w = { r with hidden }.serve handlers req w := by
  have hs : r.select? req w = { r with hidden }.select? req w := by
    simp only [select?, route?, h, matching]
  rw [serve_apply, serve_apply, hs]
  rfl

/-- The router with a route that isn't hidden anymore. -/
def reveal (r : Router) (route : Route) : Router :=
  { r with hidden := r.hidden.filter (·.route ≠ route) }

theorem IsRegular.isHidden_reveal (h : r.IsRegular) {path : String} (hc : ¬route.Covers path) :
    (r.reveal route).isHidden path = r.isHidden path := by
  rw [isHidden, isHidden, reveal, List.any_filter, Bool.eq_iff_iff, List.any_eq_true,
    List.any_eq_true]
  refine exists_congr fun e => and_congr_right fun he => ?_
  have hne (ha : e.matcher.accepts path = true) : e.route ≠ route := by
    rintro rfl
    exact hc ⟨e.matcher, h e he, ha⟩
  simpa using hne

/-- What a route doesn't cover is routed as if that route weren't hidden. -/
theorem serve_reveal (hr : r.IsRegular) (handlers : List (Request → Serving Response))
    {req : Request} (h : ¬route.Covers req.uri.path) (w : World) :
    r.serve handlers req w = (r.reveal route).serve handlers req w :=
  r.serve_congr_hidden _ handlers (hr.isHidden_reveal h).symm w

/-- A path that isn't concealed is routed as if no routes were hidden. -/
theorem serve_of_not_conceals (hr : r.IsRegular) (handlers : List (Request → Serving Response))
    {req : Request} (h : ¬r.Conceals req.uri.path) (w : World) :
    r.serve handlers req w = { r with hidden := [] }.serve handlers req w := by
  refine r.serve_congr_hidden [] handlers ?_ w
  rw [Bool.eq_false_iff.mpr (mt hr.isHidden_iff.mp h)]
  rfl

end Router

end RequestRouting
