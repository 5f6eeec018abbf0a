import RequestRouting.Proofs.Assembly.Captured
import RequestRouting.Proofs.Assembly.Rendering

/-!
# What error pages make of a response

A response whose status has a page is replaced by the page, which is captured from the root router,
below the error pages. So the page is captured once, whatever its own status is, and a response that
fails is never replaced by one that doesn't.
-/

namespace RequestRouting

/-- What a page becomes that stands for a response: it takes on the status of the response, unless
it fails itself. -/
def Response.renderedBy (res page : Response) : Response :=
  if page.status.isSuccess then { page with status := res.status } else page

/-- A page never makes a success of a response that isn't one. -/
theorem Response.isSuccess_of_renderedBy {res page : Response}
    (h : (res.renderedBy page).status.isSuccess = true) : res.status.isSuccess = true := by
  unfold renderedBy at h
  split at h
  · exact h
  · rename_i hp
    exact absurd h hp

/-- The request for the page of a status. -/
def Request.forPage (req : Request) (code : Nat) : Request :=
  req.set Attribute.error (toString code)

/-- What comes of a capture into the application with the given root router: the request is handed
to it once, unless that would lead around in a circle. -/
inductive Capture.Fetches (c : Capture) (root : Handler) (req : Request) (w : World) :
    Nat → Response → World → Prop where
  | circle {fuel : Nat} (hf : c.forward? req = none) :
      Fetches c root req w fuel (.ofStatus .internalServerError) w
  | page {fuel : Nat} {next : Request} {page : Response} {w' : World}
      (hf : c.forward? req = some next)
      (hr : root.run (World.jump fuel) next w = some (page, w')) :
      Fetches c root req w (fuel + 1) page w'

theorem Capture.serve_eq_some_iff {c : Capture} {root : Handler} {place fuel : Nat} {req : Request}
    {w w' : World} {page : Response} (ha : c.application = none)
    (hw : w.handler? (.slot place) = some root) :
    c.serve place (World.jump fuel) req w = some (page, w') ↔
      c.Fetches root req w fuel page w' := by
  cases hf : c.forward? req with
  | none =>
    have hserve : c.serve place (World.jump fuel) req w =
        some (.ofStatus .internalServerError, w) := by
      rw [serve, ha, hf]
      rfl
    rw [hserve]
    constructor
    · intro h
      obtain ⟨rfl, rfl⟩ := Prod.mk.inj (Option.some.inj h)
      exact .circle hf
    · rintro (_ | ⟨hf', -⟩)
      · rfl
      · cases hf.symm.trans hf'
  | some next =>
    have hserve : c.serve place (World.jump fuel) req w = World.jump fuel (.slot place) next w := by
      rw [serve, ha, hf]
      rfl
    rw [hserve]
    cases fuel with
    | zero =>
      constructor
      · intro h
        cases h
      · rintro ⟨hf'⟩
        cases hf.symm.trans hf'
    | succ fuel =>
      rw [World.jump_succ, hw]
      constructor
      · exact fun hr => .page hf hr
      · rintro (hf' | ⟨hf', hr⟩)
        · cases hf.symm.trans hf'
        · obtain rfl := Option.some.inj (hf.symm.trans hf')
          exact hr

namespace Assembly

/-- What the error pages of a configuration make of a response to a request: nothing if there's no
page for its status, and otherwise the page that is captured. -/
inductive Renders (config : Config) (root : Handler) (fuel : Nat) (req : Request) (res : Response)
    (w : World) : Response → World → Prop where
  | unchanged (hp : config.page? res.status.code = none) : Renders config root fuel req res w res w
  | page {c : Capture} {page : Response} {w' : World}
      (hp : config.page? res.status.code = some c)
      (hc : c.Fetches root (req.forPage res.status.code) w fuel page w') :
      Renders config root fuel req res w (res.renderedBy page) w'

variable {config : Config} {root : Handler} {fuel : Nat} {req : Request} {res answer : Response}
  {w₀ w w' : World} {s t : State} {app : Application}

theorem application_of_page? {code : Nat} {c : Capture} (h : config.page? code = some c) :
    c.application = none := by
  obtain ⟨uri, -, rfl⟩ := Option.map_eq_some_iff.mp h
  rfl

theorem Renders.isSuccess (h : Renders config root fuel req res w answer w')
    (ha : answer.status.isSuccess = true) : res.status.isSuccess = true := by
  cases h with
  | unchanged _ => exact ha
  | page _ _ => exact Response.isSuccess_of_renderedBy ha

/-- The response to a request that has no error is rendered. -/
theorem renders_iff {e : ErrorPages} {next : Request → Serving Response}
    (hp : ∀ code, e.pages.get? code = config.page? code) (hr : ¬req.Has Attribute.error)
    (hw : ∀ res w₁, next req w = some (res, w₁) → w₁.handler? (.slot e.application) = some root) :
    e.serve (World.jump fuel) next req w = some (answer, w') ↔
      ∃ res w₁, next req w = some (res, w₁) ∧
        Renders config root fuel req res w₁ answer w' := by
  have hc : req.attributes.contains Attribute.error = false := Bool.eq_false_iff.mpr hr
  rw [ErrorPages.serve, Serving.bind_apply]
  cases hn : next req w with
  | none => simp
  | some p =>
    obtain ⟨res, w₁⟩ := p
    rw [Option.bind_some]
    dsimp only
    rw [hc, if_neg Bool.false_ne_true, hp]
    cases hpage : config.page? res.status.code with
    | none =>
      constructor
      · intro h
        obtain ⟨rfl, rfl⟩ := Prod.mk.inj (Option.some.inj h)
        exact ⟨_, _, rfl, .unchanged hpage⟩
      · rintro ⟨_, _, ⟨⟩, ⟨⟩ | ⟨hp', -⟩⟩
        · rfl
        · cases hpage.symm.trans hp'
    | some c =>
      have hfetches {page : Response} {w' : World} :
          c.serve e.application (World.jump fuel) (req.forPage res.status.code) w₁ =
            some (page, w') ↔ c.Fetches root (req.forPage res.status.code) w₁ fuel page w' :=
        Capture.serve_eq_some_iff (application_of_page? hpage) (hw res w₁ hn)
      dsimp only
      rw [Serving.bind_apply, Option.bind_eq_some_iff]
      constructor
      · rintro ⟨⟨page, w₂⟩, hserve, h⟩
        obtain ⟨rfl, rfl⟩ := Prod.mk.inj (Option.some.inj h)
        exact ⟨_, _, rfl, .page hpage (hfetches.mp hserve)⟩
      · rintro ⟨_, _, ⟨⟩, hp' | ⟨hp', hc'⟩⟩
        · cases hpage.symm.trans hp'
        · obtain rfl := Option.some.inj (hpage.symm.trans hp')
          exact ⟨_, hfetches.mpr hc', rfl⟩

/-- The handlers of an application render the responses of its root router. -/
theorem serve_rootHandler_iff {place : Nat} {pages : Keyed Nat Capture}
    (hp : ∀ code, pages.get? code = config.page? code) (hr : ¬req.Has Attribute.error)
    (hw : w.handler? (.slot place) = some root) :
    (rootHandler place root pages).run (World.jump fuel) req w = some (answer, w') ↔
      ∃ res w₁, root.run (World.jump fuel) req w = some (res, w₁) ∧
        Renders config root fuel req res w₁ answer w' := by
  unfold rootHandler
  split
  · rename_i hempty
    have hnone (code : Nat) : config.page? code = none := by
      rw [← hp, Keyed.get?, List.isEmpty_iff.mp hempty]
      rfl
    constructor
    · exact fun h => ⟨_, _, h, .unchanged (hnone _)⟩
    · rintro ⟨_, _, h, _ | ⟨hp', -⟩⟩
      · exact h
      · cases (hnone _).symm.trans hp'
  · rw [Handler.run]
    exact renders_iff hp hr fun res w₁ hn =>
      (Handler.sameHandlers_run hn).handler?_eq _ ▸ hw

/-- An application hands a request without an error to its root router once. If there's no page for
the status of the response, that's the answer. Otherwise the page is captured once from the root
router, and the answer takes on the status of the response if the page succeeds. So it's a success
only if the response is one. Whatever the status of the page is, no other page is rendered for it, in
this application or in others, unless a filter takes away the error. -/
theorem serve_errorPages (hs : s.Building w₀) (h : (application config).Gives s app t) :
    ∃ router handlers pages,
      app.handler = .layer .applicationRoot
        (rootHandler t.context.application (.router router handlers) pages) ∧
      t.world.handler? (.slot t.context.application) = some (.router router handlers) ∧
      (∀ w, t.world.KeptBy w → ∀ req : Request, ¬req.Has Attribute.error → ∀ fuel,
        (∀ answer w', app.serve fuel req w = some (answer, w') ↔
          ∃ res w₁, (Handler.router router handlers).run (World.jump fuel) req.enterApplication w =
              some (res, w₁) ∧
            Renders config (.router router handlers) fuel req.enterApplication res w₁ answer w') ∧
        ∀ answer w', app.serve fuel req w = some (answer, w') → answer.status.isSuccess = true →
          ∃ res w₁, (Handler.router router handlers).run (World.jump fuel) req.enterApplication w =
            some (res, w₁) ∧ res.status.isSuccess = true) ∧
      ∀ w, t.world.KeptBy w →
        (∀ target x, w.handler? target = some x → x.Keeps Attribute.error) →
        ∀ (req : Request) code c next fuel, config.page? code = some c →
          c.forward? (req.forPage code) = some next →
          (Handler.router router handlers).run (World.jump fuel) next w =
            (Handler.router router handlers).withoutPages.run (World.jumpWithoutPages fuel)
              next w := by
  obtain ⟨leaves, nodes, done, mount, router, handlers, pages, hp⟩ := exists_parts hs h
  have hslot : t.world.slots[t.context.application]? = some (.borrowed (.router router handlers)) := by
    rw [hp.getElem?_slots, if_pos hp.application_eq.symm]
  refine ⟨router, handlers, pages, hp.root, handler?_of_keptBy _ ⟨fun _ _ h => h, fun _ _ h => h⟩
    hslot, fun w hw req hr fuel => ?_, fun w hw hkeeps req code c next fuel hc hf => ?_⟩
  · have hr' : ¬req.enterApplication.Has Attribute.error := by
      have hn : Attribute.error ≠ Attribute.root := by decide
      exact mt (Request.has_congr (Keyed.get?_insert_of_ne _ hn _)).mp hr
    have hserve (answer : Response) (w' : World) : app.serve fuel req w = some (answer, w') ↔
        ∃ res w₁, (Handler.router router handlers).run (World.jump fuel) req.enterApplication w =
            some (res, w₁) ∧
          Renders config (.router router handlers) fuel req.enterApplication res w₁ answer w' := by
      rw [Application.serve, World.answer, hp.root, Handler.run]
      exact serve_rootHandler_iff hp.pages hr' (handler?_of_keptBy w hw hslot)
    refine ⟨hserve, fun answer w' ha hsuccess => ?_⟩
    obtain ⟨res, w₁, hrun, hrenders⟩ := (hserve answer w').mp ha
    exact ⟨res, w₁, hrun, hrenders.isSuccess hsuccess⟩
  · have hnext : next.Has Attribute.error :=
      Forwarder.has_forward? (f := .capture c t.context.application) hf
        (Request.has_set_self _ _ _) (by decide)
    exact Handler.run_eq_withoutPages hkeeps (hkeeps _ _ (handler?_of_keptBy w hw hslot)) fuel hnext

/-- An application with a page for 404 that succeeds, and one for 500 that isn't found itself. -/
def lostConfig : Config where
  routes := ⟨[("/lost/", .node (.status { code := 200 })),
    ("/broken/", .node (.status { code := 404 })), ("/fail/", .node (.status { code := 500 }))]⟩
  errors := ⟨[(404, "/lost/"), (500, "!/broken/")]⟩

/-- The page for 500 isn't replaced by the one for 404, though that's its status. -/
theorem serve_errorPages_lost : ∃ app t router handlers res w₁ answer w',
    (application lostConfig).Gives (freshState {}) app t ∧
    (Handler.router router handlers).run (World.jump 1)
      (Request.enterApplication { uri := ⟨"/fail/", none⟩ }) t.world = some (res, w₁) ∧
    res.status = .internalServerError ∧
    Renders lostConfig (.router router handlers) 1
      (Request.enterApplication { uri := ⟨"/fail/", none⟩ }) res w₁ answer w' ∧
    answer.status = .notFound ∧ (lostConfig.page? answer.status.code).isSome ∧
    ∀ (req : Request) code c next fuel, lostConfig.page? code = some c →
      c.forward? (req.forPage code) = some next →
      (Handler.router router handlers).run (World.jump fuel) next t.world =
        (Handler.router router handlers).withoutPages.run (World.jumpWithoutPages fuel) next
          t.world := by
  obtain ⟨⟨app, t⟩, happ, hkeeps, ⟨answer, w'⟩, hserve, hanswer, root, hroot, hres⟩ :
      ∃ p ∈ assembled? lostConfig {},
        (∀ x ∈ p.2.world.handlers, ∀ node ∈ x.nodes, node.filter?.isNone) ∧
        ∃ q ∈ p.1.serve 1 { uri := ⟨"/fail/", none⟩ } p.2.world, q.1.status = .notFound ∧
          ∃ root ∈ p.2.world.handler? (.slot p.2.context.application),
            (root.run (World.jump 1) (Request.enterApplication { uri := ⟨"/fail/", none⟩ })
              p.2.world).map (·.1.status) = some .internalServerError := by
    decide +kernel
  have hgives : (application lostConfig).Gives (freshState {}) app t := gives_of_assembled? happ
  obtain ⟨router, handlers, pages, -, hslot, hrenders, hnested⟩ :=
    serve_errorPages (building_create _ _ _ _ _ _) hgives
  have hkept : t.world.KeptBy t.world := ⟨fun _ _ h => h, fun _ _ h => h⟩
  obtain ⟨hiff, -⟩ := hrenders t.world hkept { uri := ⟨"/fail/", none⟩ } (by decide) 1
  obtain ⟨res, w₁, hrun, hrendered⟩ := (hiff answer w').mp hserve
  obtain rfl := Option.some.inj (hslot.symm.trans hroot)
  have hcode : res.status = .internalServerError := by
    rw [hrun] at hres
    exact Option.some.inj hres
  refine ⟨app, t, router, handlers, res, w₁, answer, w', hgives, hrun, hcode, hrendered, hanswer,
    by rw [show answer.status = .notFound from hanswer]; decide, hnested t.world hkept ?_⟩
  intro target x hx node hn f hf
  simpa [hf] using hkeeps x (World.mem_handlers hx) node hn

end Assembly

end RequestRouting
