import RequestRouting.Proofs.Route.Matchable
import RequestRouting.Proofs.Routing.Flattening
import RequestRouting.Proofs.Routing.Hidden

/-!
# The gate of a router

A router is made by attaching and hiding routes. For requests from outside, it's closed to all paths
that a hidden route covers, and for all others it can't be told from the router that is made by only
attaching routes.
-/

namespace RequestRouting

namespace Router

/-- What is done to make a router. -/
inductive Change where
  | attach (route : Route)
  | hide (route : Route)
  deriving DecidableEq

/-- Whether a route is attached by a change. -/
def Change.isAttach : Change → Bool
  | attach _ => true
  | hide _ => false

/-- The router after a change. It stays as it is if the route can't be matched. -/
def change (r : Router) : Change → Router
  | .attach route => (r.attach route).toOption.getD r
  | .hide route => r.hide route

/-- The router that is made by changes one after another. -/
def make (mode : RoutingMode) (place : Nat) (changes : List Change) : Router :=
  changes.foldl change { mode, place }

variable {r : Router}

theorem mode_change (r : Router) (c : Change) : (r.change c).mode = r.mode := by
  cases c with
  | attach route =>
    cases ha : r.attach route with
    | error e => simp [change, ha, Except.toOption]
    | ok r' =>
      obtain ⟨e, rfl⟩ := eq_of_attach ha
      simp [change, ha, Except.toOption]
  | hide route => exact r.mode_hide route

theorem hidden_attach (r : Router) (route : Route) :
    (r.change (.attach route)).hidden = r.hidden := by
  cases ha : r.attach route with
  | error e => simp [change, ha, Except.toOption]
  | ok r' =>
    obtain ⟨e, rfl⟩ := eq_of_attach ha
    simp [change, ha, Except.toOption]

/-- A change keeps the matchers of the hidden routes. -/
theorem IsRegular.change (h : r.IsRegular) (c : Change) : (r.change c).IsRegular := by
  cases c with
  | attach route =>
    intro e he
    rw [hidden_attach] at he
    exact h e he
  | hide route => exact h.hide route

/-- After a change, what was concealed is concealed still, and besides what a route covers that is
hidden now. -/
theorem conceals_change (r : Router) (c : Change) (path : String) :
    (r.change c).Conceals path ↔
      r.Conceals path ∨ ∃ route, c = .hide route ∧ route.Covers path := by
  cases c with
  | attach route => simp [Conceals, hidden_attach]
  | hide route =>
    constructor
    · rintro ⟨e, he, hc⟩
      rcases mem_hidden_hide he with he | rfl
      · exact Or.inl ⟨e, he, hc⟩
      · exact Or.inr ⟨_, rfl, hc⟩
    · rintro (hc | ⟨_, ⟨rfl⟩, hc⟩)
      · exact hc.hide route
      · exact r.conceals_hide hc

/-- Without its hidden routes, a router after a change is the one that was only changed by attaching
routes. -/
theorem reveal_change (r : Router) (c : Change) :
    { r.change c with hidden := [] } =
      if c.isAttach then ({ r with hidden := [] } : Router).change c else { r with hidden := [] } := by
  cases c with
  | attach route =>
    simp only [change, attach, Change.isAttach, if_true]
    cases route.matcher <;> rfl
  | hide route =>
    obtain he | ⟨m, -, he⟩ := r.hide_eq_self_or route
    all_goals
      rw [change, he]
      rfl

theorem IsRegular.foldl_change (h : r.IsRegular) (changes : List Change) :
    (changes.foldl Router.change r).IsRegular := by
  induction changes generalizing r with
  | nil => exact h
  | cons c changes ih => exact ih (h.change c)

theorem conceals_foldl_change (r : Router) (changes : List Change) (path : String) :
    (changes.foldl change r).Conceals path ↔
      r.Conceals path ∨ ∃ route, .hide route ∈ changes ∧ route.Covers path := by
  induction changes generalizing r with
  | nil => simp
  | cons c changes ih =>
    rw [List.foldl_cons, ih, conceals_change, or_assoc]
    refine or_congr_right ?_
    simp only [List.mem_cons, or_and_right, exists_or, eq_comm]

theorem reveal_foldl_change (r : Router) (changes : List Change) :
    { changes.foldl change r with hidden := [] } =
      (changes.filter Change.isAttach).foldl change { r with hidden := [] } := by
  induction changes generalizing r with
  | nil => rfl
  | cons c changes ih =>
    rw [List.foldl_cons, ih, reveal_change, List.filter_cons]
    split <;> rfl

theorem isRegular_make (mode : RoutingMode) (place : Nat) (changes : List Change) :
    (make mode place changes).IsRegular :=
  IsRegular.foldl_change (fun _ he => absurd he List.not_mem_nil) changes

/-- A router conceals what the routes cover that were hidden, whenever that was. -/
theorem conceals_make {mode : RoutingMode} {place : Nat} {changes : List Change} {path : String} :
    (make mode place changes).Conceals path ↔
      ∃ route, .hide route ∈ changes ∧ route.Covers path := by
  rw [make, conceals_foldl_change]
  simp [Conceals]

@[simp] theorem mode_make (mode : RoutingMode) (place : Nat) (changes : List Change) :
    (make mode place changes).mode = mode := by
  have hm (r : Router) : (changes.foldl change r).mode = r.mode := by
    induction changes generalizing r with
    | nil => rfl
    | cons c changes ih => rw [List.foldl_cons, ih, mode_change]
  exact hm { mode, place }

/-- The router without its hidden routes is made by only attaching routes. -/
theorem reveal_make (mode : RoutingMode) (place : Nat) (changes : List Change) :
    { make mode place changes with hidden := [] } =
      make mode place (changes.filter Change.isAttach) :=
  reveal_foldl_change { mode, place } changes

/-- If nothing is selected, all that can change is what random choices are drawn from. -/
theorem advance_none (r : Router) (w : World) :
    ∃ chance, r.advance none w = { w with chance } ∧ (r.mode ≠ .random → chance = w.chance) := by
  by_cases hm : r.mode = .random
  · refine ⟨w.draw.2.chance, ?_, fun h => absurd hm h⟩
    rw [advance, if_pos hm]
    rfl
  · refine ⟨w.chance, ?_, fun _ => rfl⟩
    rw [advance, if_neg hm]
    rfl

/-- For what a router selects, it only counts whether the path of a request from outside is hidden,
not by which routes. -/
theorem step_congr_hidden (r : Router) (hidden : List Entry) {req : Request}
    (h : req.isInternal = true ∨ r.isHidden req.uri.path = { r with hidden }.isHidden req.uri.path)
    (w : World) : r.step req w = { r with hidden }.step req w := by
  have hs : r.select? req w = { r with hidden }.select? req w := by
    rcases h with h | h <;> simp only [select?, route?, h, Bool.not_true, Bool.false_and, matching]
  rw [step, step, hs]
  rfl

/-- The gate is exact. For a request from outside with a path that a hidden route covers, nothing is
selected, no handler is run, and no turn is counted, and the answer is 404. For any other request,
the router without hidden routes selects the same handler for the same request, leaves the same
world, and so gets the same answer. -/
theorem gate_exact (mode : RoutingMode) (place : Nat) (changes : List Change)
    (handlers : List (Request → Serving Response)) (req : Request) (w : World) :
    let r := make mode place changes
    let shown := make mode place (changes.filter Change.isAttach)
    let concealed := ∃ route, .hide route ∈ changes ∧ route.Covers req.uri.path
    (req.isInternal = false → concealed → ∃ w', r.step req w = (none, w') ∧
      r.serve handlers req w = some (.ofStatus .notFound, w') ∧ w'.turns = w.turns ∧
      ∃ chance, w' = { w with chance } ∧ (mode ≠ .random → chance = w.chance)) ∧
    (req.isInternal = true ∨ ¬concealed → r.step req w = shown.step req w ∧
      r.serve handlers req w = shown.serve handlers req w) := by
  intro r shown concealed
  have hr : r.IsRegular := isRegular_make mode place changes
  have hshown : { r with hidden := [] } = shown := reveal_make mode place changes
  refine ⟨fun hi hc => ?_, fun h => ?_⟩
  · have hc : r.Conceals req.uri.path := conceals_make.mpr hc
    have hn : r.select? req w = none := by
      simp [select?, route?, hi, hr.isHidden_iff.mpr hc]
    obtain ⟨chance, hw, hchance⟩ := r.advance_none w
    refine ⟨r.advance none w, by rw [step, hn], serve_of_conceals hr handlers hi hc w, ?_,
      chance, hw, fun hm => hchance (by rwa [mode_make])⟩
    rw [hw]
  · have hstep : r.step req w = shown.step req w := by
      rw [← hshown]
      refine r.step_congr_hidden [] (h.imp_right fun hc => ?_) w
      rw [Bool.eq_false_iff.mpr (mt hr.isHidden_iff.mp (mt conceals_make.mp hc))]
      rfl
    exact ⟨hstep, by rw [serve_eq_hand, serve_eq_hand, hstep]⟩

/-- A shop whose routes are hidden by a path, by a prefix of a segment, by a prefix on segment
boundaries, and by a template. -/
def shopChanges : List Change :=
  [.attach ⟨"/shop/", .startsWith⟩, .hide ⟨"/shop/admin/", .exact⟩,
    .hide ⟨"/shop/secret", .startsWith⟩, .attach ⟨"/shop/\x7bitem\x7d/", .exact⟩,
    .hide ⟨"/shop/\x7bitem\x7d/draft/", .startsWith⟩, .hide ⟨"/shop/\x7bitem\x7d.old", .exact⟩]

/-- Paths in the shop, and the routes that hide them. -/
def shopHidden : List (Route × String) :=
  [(⟨"/shop/admin/", .exact⟩, "/shop/admin/"), (⟨"/shop/secret", .startsWith⟩, "/shop/secrets/"),
    (⟨"/shop/\x7bitem\x7d/draft/", .startsWith⟩, "/shop/hat/draft/2"),
    (⟨"/shop/\x7bitem\x7d.old", .exact⟩, "/shop/hat.old")]

/-- Requests for other paths in the shop, and one after a capture. -/
def shopShown : List Request :=
  [{ uri := ⟨"/shop/hat/", none⟩ }, { uri := ⟨"/shop/hat/draft", none⟩ },
    { uri := ⟨"/shop/admin/", none⟩, attributes := ⟨[(Attribute.history, "/shop/admin/")]⟩ }]

/-- The shop after a selection was made in rotation. -/
def shopTurned : World := { turns := #[1] }

/-- The second of two handlers comes next in rotation. -/
theorem gate_exact_shop :
    (∀ x ∈ shopHidden, ∃ w', w'.turns = #[1] ∧
      (make .next 0 shopChanges).serve [fun _ => failure, fun _ => failure]
        { uri := ⟨x.2, none⟩ } shopTurned = some (.ofStatus .notFound, w')) ∧
    (∀ req ∈ shopShown, (make .next 0 shopChanges).step req shopTurned =
      (make .next 0 (shopChanges.filter Change.isAttach)).step req shopTurned) ∧
    shopShown.map (fun req => ((make .next 0 shopChanges).step req shopTurned).1.map (·.place)) =
      [some 1, some 0, some 1] := by
  refine ⟨fun x hx => ?_, fun req hreq => ?_, by decide +kernel⟩
  · have hc : ∀ x ∈ shopHidden, .hide x.1 ∈ shopChanges ∧ x.1.Covers x.2 := by decide +kernel
    have hi : ({ uri := ⟨x.2, none⟩ } : Request).isInternal = false := rfl
    obtain ⟨w', -, hserve, hturns, -⟩ := (gate_exact .next 0 shopChanges
      [fun _ => failure, fun _ => failure] _ shopTurned).1 hi ⟨x.1, hc x hx⟩
    exact ⟨w', hturns, hserve⟩
  · have hshown : ∀ req ∈ shopShown, req.isInternal = true ∨
        (make .next 0 shopChanges).isHidden req.uri.path = false := by decide +kernel
    refine ((gate_exact .next 0 shopChanges [] req shopTurned).2 ?_).1
    refine (hshown req hreq).imp_right fun hf hc => ?_
    rw [(isRegular_make _ _ _).isHidden_iff.mpr (conceals_make.mpr hc)] at hf
    cases hf

end Router

end RequestRouting
