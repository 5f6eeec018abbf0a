import RequestRouting.Proofs.Assembly.Finished
import RequestRouting.Proofs.Assembly.Spelling
import RequestRouting.Proofs.Route.Matchable

/-!
# Hidden routes in force

Hiding a route that can't be matched has no effect, while attaching it is an error. So a route that
an application hides is in force exactly if it can be matched. Whoever asks for one of its paths from
outside then gets 404.
-/

namespace RequestRouting

namespace Router

/-- Whether a route is among those that a router hides. -/
def IsInForce (r : Router) (route : Route) : Prop := ∃ e ∈ r.hidden, e.route = route

variable {r r' : Router} {route : Route}

/-- A router that still hides what another one hides. -/
structure Grows (r r' : Router) : Prop where
  mode : r'.mode = r.mode
  regular : r.IsRegular → r'.IsRegular
  inForce : ∀ route, r.IsInForce route → r'.IsInForce route

namespace Grows

theorem refl (r : Router) : Grows r r := ⟨rfl, id, fun _ => id⟩

theorem trans {r'' : Router} (h : Grows r r') (h' : Grows r' r'') : Grows r r'' :=
  ⟨h'.mode.trans h.mode, h'.regular ∘ h.regular,
    fun route => h'.inForce route ∘ h.inForce route⟩

theorem hide (r : Router) (route : Route) : Grows r (r.hide route) := by
  refine ⟨r.mode_hide route, fun h => h.hide route, fun other => ?_⟩
  rintro ⟨e, he, rfl⟩
  obtain hr | ⟨m, -, hr⟩ := r.hide_eq_self_or route
  · exact ⟨e, by rwa [hr], rfl⟩
  · exact ⟨e, by rw [hr]; exact List.mem_append_left _ he, rfl⟩

theorem attach (h : r.attach route = .ok r') : Grows r r' := by
  obtain ⟨e, rfl⟩ := eq_of_attach h
  exact ⟨rfl, id, fun _ => id⟩

end Grows

/-- Only routes that can be matched are in force. -/
theorem IsRegular.isMatchable (hr : r.IsRegular) (h : r.IsInForce route) : route.IsMatchable := by
  obtain ⟨e, he, rfl⟩ := h
  exact Route.exists_matcher_iff.mp ⟨e.matcher, hr e he⟩

/-- A route that can be matched is in force once it's hidden. -/
theorem isInForce_hide (r : Router) (h : route.IsMatchable) : (r.hide route).IsInForce route := by
  obtain ⟨m, hm⟩ := Route.exists_matcher_iff.mpr h
  unfold Router.hide
  split
  · rename_i hany
    obtain ⟨e, he, hroute⟩ := List.any_eq_true.mp hany
    exact ⟨e, he, by simpa using hroute⟩
  · rw [hm]
    exact ⟨⟨route, m⟩, List.mem_append_right _ (List.mem_singleton_self _), rfl⟩

/-- What is in force conceals the paths of the route. -/
theorem IsInForce.conceals (h : r.IsInForce route) (hm : route.IsMatchable) {path : String}
    (hp : route.IsPath path) : r.Conceals path := by
  obtain ⟨e, he, rfl⟩ := h
  exact ⟨e, he, Route.covers_iff_isPath.mpr ⟨hm, hp⟩⟩

end Router

/-- The text of a route that a configuration hides: a key without handler in the route table, or a
URI. -/
inductive Config.Hides (config : Config) : String → Prop where
  | key {key : String} (he : (key, .hidden) ∈ config.routes.entries) : Hides config (clean key)
  | uri {uri : String} (hu : uri ∈ config.hiddenTargets) : Hides config uri

namespace Assembly

open Router (Grows IsInForce)

variable {s t : State}

/-- A router hides a route if it's matchable. -/
def Enforces (r : Router) (text : String) : Prop :=
  ∃ route, Route.parse text = .ok route ∧ (r.IsInForce route ↔ route.IsMatchable)

/-- What is in force stays in force. -/
theorem Enforces.grows {r r' : Router} {text : String} (h : Enforces r text) (hr : r.IsRegular)
    (hg : Grows r r') : Enforces r' text := by
  obtain ⟨route, hroute, hi⟩ := h
  exact ⟨route, hroute, (hg.regular hr).isMatchable, fun hm => hg.inForce route (hi.mpr hm)⟩

theorem enforces_hide {r : Router} (hr : r.IsRegular) {text : String} {route : Route}
    (h : Route.parse text = .ok route) : Enforces (r.hide route) text :=
  ⟨route, h, (hr.hide route).isMatchable, r.isInForce_hide⟩

theorem grows_attachResolved {route : Route} {p q : Router × List Handler} {resolved : Resolved}
    (h : (attachResolved route p resolved).Gives s q t) : Grows p.1 q.1 := by
  cases resolved with
  | hidden =>
    obtain ⟨rfl, -⟩ := gives_pure.mp h
    exact .hide p.1 route
  | handler handler =>
    obtain ⟨r, handlers⟩ := p
    unfold attachResolved at h
    cases ha : r.attach route with
    | error e => simp [ha] at h
    | ok r' =>
      simp only [ha, gives_pure] at h
      obtain ⟨rfl, -⟩ := h
      exact .attach ha

/-- A router enforces all keys of its route table that have no handler. -/
theorem enforces_of_resolveRoutes {prebuilt : ResolvePrebuilt} {l : List (String × Descriptor)}
    {uri : String} {p q : Router × List Handler} (hr : p.1.IsRegular)
    (h : (resolveRoutes prebuilt l uri p).Gives s q t) :
    Grows p.1 q.1 ∧ ∀ key, (key, .hidden) ∈ l → Enforces q.1 (clean key) := by
  induction l generalizing p s with
  | nil =>
    rw [resolveRoutes, gives_pure] at h
    rw [← h.1]
    exact ⟨.refl _, by simp⟩
  | cons entry rest ih =>
    obtain ⟨key, d⟩ := entry
    simp only [resolveRoutes, gives_bind, gives_located, gives_routeOf] at h
    obtain ⟨route, _, ⟨hroute, rfl⟩, resolved, _, hd, p', _, hattach, hrest⟩ := h
    have hgrows := grows_attachResolved hattach
    obtain ⟨hgrows', henforces⟩ := ih (hgrows.regular hr) hrest
    refine ⟨hgrows.trans hgrows', fun key' hk => ?_⟩
    rcases List.mem_cons.mp hk with hk | hk
    · obtain ⟨rfl, rfl⟩ := Prod.mk.inj hk
      rw [Descriptor.resolve, gives_pure] at hd
      obtain ⟨rfl, -⟩ := hd
      obtain ⟨rfl, -⟩ := gives_pure.mp hattach
      exact (enforces_hide hr hroute).grows (hgrows.regular hr) hgrows'
    · exact henforces key' hk

/-- The router of a route table enforces all of its keys that have no handler. -/
theorem enforces_of_resolveOrdered {prebuilt : ResolvePrebuilt} {routes : Ordered Descriptor}
    {uri : String} {p : Router × List Handler}
    (h : (resolveOrdered prebuilt routes uri .best none).Gives s p t) :
    p.1.mode = .best ∧ p.1.IsRegular ∧
      ∀ key, (key, .hidden) ∈ routes.entries → Enforces p.1 (clean key) := by
  obtain ⟨entries⟩ := routes
  simp only [resolveOrdered, gives_bind, gives_add] at h
  obtain ⟨_, _, -, place, _, ⟨-, rfl⟩, hroutes⟩ := h
  have hnew : Router.IsRegular { mode := .best, place } := by simp [Router.IsRegular]
  obtain ⟨hgrows, henforces⟩ :=
    enforces_of_resolveRoutes (p := ({ mode := .best, place }, [])) hnew hroutes
  exact ⟨hgrows.mode, hgrows.regular hnew, henforces⟩

theorem grows_mountManual {p q : Router × List Handler} {mount : Option (String × Nat)}
    (h : (mountManual p mount).Gives s q t) : Grows p.1 q.1 := by
  cases mount with
  | none =>
    obtain ⟨rfl, -⟩ := gives_pure.mp h
    exact .refl _
  | some mount =>
    simp only [mountManual, gives_bind, gives_routeOf, gives_pure] at h
    obtain ⟨route, _, -, ⟨r, handlers⟩, _, hattach, rfl, -⟩ := h
    exact (grows_attachResolved hattach).trans (.hide r route)

/-- A router enforces all URIs that are hidden by it. -/
theorem enforces_of_hideRoutes {r r' : Router} {uris : List String} (hr : r.IsRegular)
    (h : (hideRoutes r uris).Gives s r' t) :
    Grows r r' ∧ ∀ uri ∈ uris, Enforces r' uri := by
  induction uris generalizing r s with
  | nil =>
    simp only [hideRoutes, List.foldlM_nil, gives_pure] at h
    rw [← h.1]
    exact ⟨.refl r, by simp⟩
  | cons uri rest ih =>
    simp only [hideRoutes, List.foldlM_cons, gives_bind, gives_located, gives_routeOf,
      gives_pure] at h
    obtain ⟨_, _, ⟨route, _, ⟨hroute, rfl⟩, rfl, rfl⟩, hrest⟩ := h
    obtain ⟨hgrows, henforces⟩ := ih (hr.hide route) hrest
    refine ⟨(Grows.hide r route).trans hgrows, fun u hu => ?_⟩
    rcases List.mem_cons.mp hu with rfl | hu
    · exact (enforces_hide hr hroute).grows (hr.hide route) hgrows
    · exact henforces u hu

/-- The root router of an application enforces whatever the configuration hides. -/
theorem exists_enforcing {config : Config} {app : Application}
    (h : (application config).Gives s app t) (hs : s.context.hidden = []) :
    ∃ router handlers pages,
      app.handler = .layer .applicationRoot
        (rootHandler t.context.application (.router router handlers) pages) ∧
      router.mode = .best ∧ router.IsRegular ∧ ∀ text, config.Hides text → Enforces router text := by
  simp only [application, gives_bind, gives_context, gives_modify, gives_pure] at h
  obtain ⟨_, _, ⟨rfl, rfl⟩, ⟨r₀, handlers₀⟩, s₁, hroutes, mount, s₂, hfinish, ⟨r₁, handlers⟩, s₃,
    hmount, pages, s₄, hpages, _, _, ⟨rfl, rfl⟩, r₂, s₅, hhide, _, _, rfl, rfl, rfl⟩ := h
  rw [hidden_eq_hiddenTargets hs hroutes hfinish hmount hpages] at hhide
  obtain ⟨hmode, hregular, hkeys⟩ := enforces_of_resolveOrdered hroutes
  have hmounted := grows_mountManual hmount
  obtain ⟨hidden, rfl⟩ := OnlyHides.hideRoutes _ _ _ _ _ hhide
  obtain ⟨hgrows, huris⟩ := enforces_of_hideRoutes (hmounted.regular hregular) hhide
  have hall := hmounted.trans hgrows
  refine ⟨r₂, handlers, pages, rfl, hall.mode.trans hmode, hall.regular hregular, ?_⟩
  rintro text (he | hu)
  · exact (hkeys _ he).grows hregular hall
  · exact huris _ hu

/-- A route that an application hides is in force exactly if it can be matched. In that case,
requests from outside for its paths are answered by 404, and nothing is run, unless the application
has a page for 404. -/
theorem in_force_iff {config : Config} {app : Application}
    (h : (application config).Gives s app t) (hs : s.context.hidden = []) :
    ∃ router handlers pages,
      app.handler = .layer .applicationRoot
        (rootHandler t.context.application (.router router handlers) pages) ∧
      ∀ text, config.Hides text → ∃ route, Route.parse text = .ok route ∧
        (router.IsInForce route ↔ route.IsMatchable) ∧
        (route.IsMatchable → ∀ req : Request, req.isInternal = false → route.IsPath req.uri.path →
          (∀ jump w, (Handler.router router handlers).run jump req w =
            some (.ofStatus .notFound, w)) ∧
          (pages.get? Status.notFound.code = none → ∀ fuel w,
            app.serve fuel req w = some (.ofStatus .notFound, w))) := by
  obtain ⟨router, handlers, pages, happ, hmode, hregular, henforces⟩ := exists_enforcing h hs
  refine ⟨router, handlers, pages, happ, fun text ht => ?_⟩
  obtain ⟨route, hroute, hi⟩ := henforces text ht
  refine ⟨route, hroute, hi, fun hm req hreq hp => ?_⟩
  have hconceals := (hi.mpr hm).conceals hm hp
  refine ⟨Router.run_of_conceals hregular hmode handlers hreq hconceals, fun hpages fuel w => ?_⟩
  rw [Application.serve, World.answer, happ, Handler.run, Middleware.serve]
  have hreq' : req.enterApplication.isInternal = false := req.isInternal_enterApplication.trans hreq
  exact run_rootHandler hpages
    (Router.run_of_conceals hregular hmode handlers hreq' hconceals (World.jump fuel) w)

/-- A configuration with two hidden prefixes, one of which ends in text behind a variable. -/
def docsConfig : Config where
  routes := ⟨[("/docs/\x7bname\x7d.html*", .hidden), ("/secret*", .hidden),
    ("/*", .node (.status { code := 204 }))]⟩

/-- The prefix that can't be matched. -/
def docsRoute : Route := ⟨"/docs/\x7bname\x7d.html", .startsWith⟩

/-- The prefix that can be matched. -/
def secretRoute : Route := ⟨"/secret", .startsWith⟩

theorem in_force_iff_docs : ∃ app t, (application docsConfig).Gives (freshState {}) app t ∧
    (freshState {}).context.hidden = [] ∧ ∃ router handlers pages,
      app.handler = .layer .applicationRoot
        (rootHandler t.context.application (.router router handlers) pages) ∧
      router.IsInForce secretRoute ∧ ¬router.IsInForce docsRoute ∧
      ∀ jump w, (Handler.router router handlers).run jump { uri := ⟨"/secrets/", none⟩ } w =
        some (.ofStatus .notFound, w) := by
  have hn : (assembled? docsConfig {}).isSome = true := by decide +kernel
  obtain ⟨⟨app, t⟩, happ⟩ := Option.isSome_iff_exists.mp hn
  have happ := gives_of_assembled? happ
  obtain ⟨router, handlers, pages, hhandler, hforce⟩ := in_force_iff happ rfl
  have hdocs : docsConfig.Hides (clean "/docs/\x7bname\x7d.html*") := .key (by simp [docsConfig])
  have hsecret : docsConfig.Hides (clean "/secret*") := .key (by simp [docsConfig])
  have hparse : Route.parse (clean "/docs/\x7bname\x7d.html*") = .ok docsRoute ∧
      Route.parse (clean "/secret*") = .ok secretRoute := by decide +kernel
  have hmatch : ¬docsRoute.IsMatchable ∧ secretRoute.IsMatchable := by decide +kernel
  obtain ⟨route, hroute, hdocs, -⟩ := hforce _ hdocs
  obtain rfl := Except.ok.inj (hroute.symm.trans hparse.1)
  obtain ⟨route, hroute, hsecret, hrun⟩ := hforce _ hsecret
  obtain rfl := Except.ok.inj (hroute.symm.trans hparse.2)
  have hcovers : secretRoute.Covers "/secrets/" := by decide +kernel
  have hpath := (Route.covers_iff_isPath.mp hcovers).2
  refine ⟨app, t, happ, rfl, router, handlers, pages, hhandler, hsecret.mpr hmatch.2,
    fun h => hmatch.1 (hdocs.mp h), ?_⟩
  exact (hrun hmatch.2 { uri := ⟨"/secrets/", none⟩ } (by decide +kernel) hpath).1

/-- A hidden prefix that can't be matched isn't hidden: its paths are answered like any other. -/
theorem not_hides_unmatchable : ¬∀ (config : Config) (s t : State) (app : Application),
    (application config).Gives s app t → s.context.hidden = [] →
    ∀ text, config.Hides text → ∀ route, Route.parse text = .ok route →
    ∀ req : Request, req.isInternal = false → route.IsPath req.uri.path →
    ∀ fuel res w, app.serve fuel req t.world = some (res, w) → res.status = .notFound := by
  intro hclaim
  have hn : (answerOf docsConfig {} { uri := ⟨"/docs/a.html", none⟩ }).map (·.status) =
      some .noContent := by decide +kernel
  obtain ⟨res, hres, hstatus⟩ := Option.map_eq_some_iff.mp hn
  obtain ⟨app, t, w, happ, hserve⟩ := exists_of_answerOf hres
  have hparse : Route.parse (clean "/docs/\x7bname\x7d.html*") = .ok docsRoute := by decide +kernel
  have hcovers : Route.Covers ⟨docsRoute.path, .exact⟩ "/docs/a.html" := by decide +kernel
  have hpath : docsRoute.IsPath "/docs/a.html" := (Route.covers_iff_isPath.mp hcovers).2.startsWith
  have hfound := hclaim docsConfig (freshState {}) t app happ rfl _ (.key (by simp [docsConfig]))
    docsRoute hparse { uri := ⟨"/docs/a.html", none⟩ } (by decide +kernel) hpath 2 res w hserve
  rw [hfound] at hstatus
  cases hstatus

end Assembly

end RequestRouting
