import RequestRouting.Proofs.Assembly.InForce
import RequestRouting.Proofs.Assembly.Travels

/-!
# Access to dispatchers

There's one manual resource in an application. It's mounted at a hidden route for dispatches, which
no request from outside gets through, but it's also what public routes lead to. The documents of
dispatchers pass through it wherever a request comes from, so there are more ways to them than by
dispatches: a capture to the hidden route, and a public route under which the rest of the path is
the name of the document.
-/

namespace RequestRouting

/-- Binding targets changes neither which of them are referenced, nor their documents. -/
theorem DispatchTable.dispatcher_bind (t : DispatchTable) (internal : String) :
    (t.bind internal).referenced.map (·.dispatcher) = t.referenced.map (·.dispatcher) := by
  simp only [referenced, bind, List.filter_map, List.map_map]
  have hreferenced : ((·.referenced) ∘ fun entry : Entry =>
      if entry.referenced && entry.target.uri.isNone then
        { entry with target.uri := some (entry.target.captureUri internal) }
      else entry) = (·.referenced) := by
    funext entry
    dsimp only [Function.comp]
    split <;> rfl
  rw [hreferenced]
  refine List.map_congr_left fun entry _ => ?_
  dsimp only [Function.comp]
  split <;> rfl

namespace Router

variable {r : Router} {req : Request} {turn chance : Nat} {s : Selection}

/-- A request from outside isn't routed anywhere if its path is concealed. -/
theorem not_conceals_of_route? (hr : r.IsRegular) (hi : req.isInternal = false)
    (h : r.route? turn chance req = some s) : ¬r.Conceals req.uri.path := by
  intro hc
  rw [route?, hi, hr.isHidden_iff.mpr hc] at h
  cases h

/-- If the route of the last entry is in force, requests from outside are routed to the others, and
for none of its paths. -/
theorem place_lt_of_route? {table : List Entry} {e : Entry} (hr : r.IsRegular)
    (he : r.entries = table ++ [e]) (hm : e.route.matcher = .ok e.matcher)
    (hf : r.IsInForce e.route) (hi : req.isInternal = false)
    (h : r.route? turn chance req = some s) :
    s.place < table.length ∧ ¬e.route.Covers req.uri.path := by
  have hcovers : ¬e.route.Covers req.uri.path := by
    intro hc
    obtain ⟨hidden, hmem, hroute⟩ := hf
    exact not_conceals_of_route? hr hi h ⟨hidden, hmem, hroute ▸ hc⟩
  refine ⟨?_, hcovers⟩
  obtain ⟨entry, hentry, henter⟩ := getElem?_of_route? h
  obtain ⟨values, hvalues, -⟩ := Option.map_eq_some_iff.mp henter
  by_contra hge
  -- Only the last entry is left, but that one doesn't match.
  have hlen := (List.getElem?_eq_some_iff.mp hentry).1
  rw [he, List.length_append, List.length_singleton] at hlen
  obtain hplace : s.place = table.length := by omega
  rw [he, hplace, List.getElem?_concat_length] at hentry
  obtain rfl := Option.some.inj hentry
  refine hcovers ((Route.covers_iff hm).mpr ?_)
  rw [RouteMatcher.accepts, hvalues]
  rfl

end Router

namespace Assembly

variable {w₀ w : World} {config : Config} {app : Application} {s t : State}
  {m : Singleton ManualNode}

/-- The route that the manual resource is mounted at is hidden. -/
theorem enforces_mountManual {p q : Router × List Handler} {internal : String} {place : Nat}
    (hr : p.1.IsRegular) (h : (mountManual p (some (internal, place))).Gives s q t) :
    Enforces q.1 (internal ++ "*") := by
  simp only [mountManual, gives_bind, gives_routeOf, gives_pure] at h
  obtain ⟨route, _, ⟨hroute, -⟩, ⟨r, handlers⟩, _, hattach, rfl, -⟩ := h
  exact enforces_hide ((grows_attachResolved hattach).regular hr) hroute

/-- The root router of an application hides the route that the manual resource is mounted at. -/
theorem exists_enforcing_mount (hs : s.Building w₀) (h : (application config).Gives s app t)
    (hm : t.context.manual = some m) : ∃ router handlers pages,
      app.handler = .layer .applicationRoot
        (rootHandler t.context.application (.router router handlers) pages) ∧
      router.IsRegular ∧ Enforces router (m.config.mount ++ "*") := by
  simp only [application, gives_bind, gives_context, gives_modify, gives_pure] at h
  obtain ⟨_, _, ⟨rfl, rfl⟩, ⟨r₀, leaves⟩, s₁, hroutes, mount, s₂, hfinish, ⟨r₁, handlers⟩, s₃,
    hmount, pages, s₄, hpages, _, _, ⟨rfl, rfl⟩, r₂, s₅, hhide, _, _, rfl, rfl, rfl⟩ := h
  obtain ⟨hbuilding, -⟩ :=
    yields_resolveOrdered (yields_resolvePrebuilt _) config.routes "/" .best none [] _ _ _ hroutes
      hs (by simp)
  have hfinishes := finishes_of_gives hbuilding hfinish
  obtain ⟨-, hregular, -⟩ := enforces_of_resolveOrdered hroutes
  obtain ⟨rfl, -⟩ := gives_mountManual hmount
  obtain ⟨hidden, rfl⟩ := OnlyHides.errorPages _ _ _ _ hpages
  obtain ⟨hidden', rfl⟩ := OnlyHides.hideRoutes _ _ _ _ _ hhide
  obtain ⟨dispatch, hdone⟩ := hfinishes.context
  obtain rfl : mount = some (m.config.mount, m.slot) := by
    have hm' : s₂.context.manual = some m := hm
    rw [hdone] at hm'
    rw [hfinishes.mount, hm']
    rfl
  have hregular₁ := (grows_mountManual hmount).regular hregular
  obtain ⟨hgrows, -⟩ := enforces_of_hideRoutes hregular₁ hhide
  exact ⟨r₂, handlers, pages, rfl, hgrows.regular hregular₁,
    (enforces_mountManual hregular hmount).grows hregular₁ hgrows⟩

/-- Where the manual resource is in an application: in its slot, which stands behind all routes of
the configuration as the last handler of the root router, at a route that is hidden. -/
structure HasManual (config : Config) (app : Application) (t : State) (m : Singleton ManualNode)
    (docs : Documents) (router : Router) (handlers : List Handler) (table : List Router.Entry)
    (e : Router.Entry) : Prop where
  resource : ∃ h, t.world.slots[m.slot]? = some (.owned h) ∧ IsResource docs h
  passThroughs : ∀ name, name ∈ docs.passThroughs ↔ name ∈ m.config.passThroughs.getD [] ∨
    ∃ target ∈ t.context.dispatch.referenced, name = Text.trim (· = '/') target.dispatcher
  root : ∃ pages, app.handler = .layer .applicationRoot
    (rootHandler t.context.application (.router router handlers) pages)
  entries : router.entries = table ++ [e]
  configured : ∀ other ∈ table, IsEntry config other
  parse : Route.parse (m.config.mount ++ "*") = .ok e.route
  matcher : e.route.matcher = .ok e.matcher
  handler : handlers[table.length]? = some (.slot m.slot)
  regular : router.IsRegular
  hidden : router.IsInForce e.route

theorem exists_hasManual (hs : s.Building w₀) (h : (application config).Gives s app t)
    (hm : t.context.manual = some m) :
    ∃ docs router handlers table e, HasManual config app t m docs router handlers table e := by
  obtain ⟨leaves, nodes, done, mount, router, handlers, pages, hparts⟩ := exists_parts hs h
  obtain ⟨router', handlers', pages', happ, hregular, route, hroute, hforce⟩ :=
    exists_enforcing_mount hs h hm
  obtain rfl : router' = router := by
    have hroot := congrArg Handler.root? (happ.symm.trans hparts.root)
    simpa only [Handler.root?_rootHandler, Option.some.injEq] using hroot
  obtain ⟨hm', hmount⟩ := hparts.mount_eq hm
  obtain ⟨hbind, -, resource, docs, hslot, hresource, hmanual⟩ := hparts.finishes.manual m hm'
  obtain ⟨table, hlength, htable, -, hlast⟩ := hparts.entries
  obtain ⟨e, hentries, hparse, hmatcher⟩ := hlast _ _ hmount
  obtain rfl : route = e.route := Except.ok.inj (hroute.symm.trans hparse)
  refine ⟨docs, router', handlers, table, e, ⟨resource, hparts.getElem?_owned hslot, hresource⟩,
    fun name => ?_,
    ⟨pages, hparts.root⟩, hentries, htable, hparse, hmatcher, ?_, hregular,
    hforce.mpr (Route.exists_matcher_iff.mp ⟨_, hmatcher⟩)⟩
  · obtain ⟨hidden, ht⟩ := hparts.context
    have hdispatch : t.context.dispatch = nodes.context.dispatch.bind m.config.mount := by
      rw [ht]
      exact hbind
    have hdocuments := nodes.context.dispatch.dispatcher_bind m.config.mount
    rw [← hdispatch] at hdocuments
    rw [hmanual.passThroughs, ManualNode.mem_withTargets_iff]
    refine or_congr_right ?_
    have hmap (targets : List DispatchTarget) :
        (∃ target ∈ targets, name = Text.trim (· = '/') target.dispatcher) ↔
          ∃ document ∈ targets.map (·.dispatcher), name = Text.trim (· = '/') document := by
      simp
    rw [hmap, hmap, hdocuments]
  · rw [hparts.handlers, hmount, hlength]
    simp

/-- How far a request has got in an application without being forwarded: to the application, to what
records its mount point and what that passes it on to, to an error page, or beyond the root router,
which has handed it to one of its handlers. -/
inductive Stage (w : World) (app root : Handler) (router : Router) (handlers : List Handler)
    (client : Request) : Handler → Request → Prop where
  | application : Stage w app root router handlers client app client
  | root : Stage w app root router handlers client root client.enterApplication
  | router : Stage w app root router handlers client (.router router handlers)
      client.enterApplication
  | page (c : Capture) (place : Nat) (req : Request) :
      Stage w app root router handlers client (.capture c place) req
  | beyond {turn chance : Nat} {s : Router.Selection} {next h : Handler} {seen : Request}
      (hs : router.route? turn chance client.enterApplication = some s)
      (hn : handlers[s.place]? = some next) (ht : Travels w next s.req [] h seen) :
      Stage w app root router handlers client h seen

section Stages

variable {root h : Handler} {place : Nat} {router : Router} {handlers : List Handler}
  {pages : Keyed Nat Capture} {client seen : Request} {forwarders : List Forwarder}

/-- Only beyond the root router there are other handlers than layers, routers and captures. -/
theorem Stage.exists_beyond
    (hstage : Stage w (.layer .applicationRoot root) root router handlers client h seen)
    (hroot : root = rootHandler place (.router router handlers) pages)
    (hl : ∀ middleware next, h ≠ .layer middleware next) (hr : ∀ r all, h ≠ .router r all)
    (hc : ∀ c application, h ≠ .capture c application) :
    ∃ turn chance s next, router.route? turn chance client.enterApplication = some s ∧
      handlers[s.place]? = some next ∧ Travels w next s.req [] h seen := by
  cases hstage with
  | application => exact absurd rfl (hl _ _)
  | root =>
    unfold rootHandler at hroot
    split at hroot
    · exact absurd hroot (hr _ _)
    · exact absurd hroot (hl _ _)
  | router => exact absurd rfl (hr _ _)
  | page => exact absurd rfl (hc _ _)
  | beyond hs hn ht => exact ⟨_, _, _, _, hs, hn, ht⟩

/-- Every step of the way leads to one of these, as long as a request isn't forwarded. -/
theorem stage_of_travels
    (happ : app.handler = .layer .applicationRoot root)
    (hroot : root = rootHandler place (.router router handlers) pages)
    (ht : Travels w app.handler client forwarders h seen) (hf : forwarders = []) :
    Stage w app.handler root router handlers client h seen := by
  induction ht with
  | start => exact .application
  | forward _ _ _ _ => simp at hf
  | slot _ hh ih =>
    have hstage := ih hf
    rw [happ] at hstage ⊢
    obtain ⟨turn, chance, s, next, hs, hn, ht⟩ := hstage.exists_beyond hroot nofun nofun nofun
    exact .beyond hs hn (ht.slot hh)
  | @pass forwarders h next req req' ht hp ih =>
    have hrouted (hp : (Handler.router router handlers).Passes client.enterApplication next req') :
        Stage w app.handler root router handlers client next req' := by
      cases hp with
      | router hs hn => exact .beyond hs hn .start
    cases ih hf with
    | application =>
      rw [happ] at hp
      cases hp with
      | layer _ hpass =>
        obtain rfl := hpass
        exact .root
    | root =>
      rw [hroot, rootHandler] at hp
      split at hp
      · exact hrouted hp
      · cases hp with
        | layer _ hpass =>
          obtain rfl := hpass
          exact .router
        | page => exact .page _ _ _
    | router => exact hrouted hp
    | page => cases hp
    | beyond hs hn ht => exact .beyond hs hn (ht.pass hp)

end Stages

/-- Whether a request got to a handler through an entry of the root router in front of a place,
without being forwarded on the way. -/
def IsDirect (w : World) (router : Router) (handlers : List Handler) (bound : Nat)
    (client : Request) (h : Handler) (seen : Request) : Prop :=
  ∃ turn chance s next, router.route? turn chance client.enterApplication = some s ∧
    s.place < bound ∧ handlers[s.place]? = some next ∧ Travels w next s.req [] h seen

namespace HasManual

variable {docs : Documents} {router : Router} {handlers : List Handler}
  {table : List Router.Entry} {e : Router.Entry}
  (h : HasManual config app t m docs router handlers table e)

include h

/-- The root router hands no request from outside to where the manual resource is mounted. -/
theorem place_lt {req : Request} {turn chance : Nat} {s : Router.Selection}
    (hi : req.isInternal = false) (hr : router.route? turn chance req = some s) :
    s.place < table.length ∧ ¬e.route.Covers req.uri.path :=
  Router.place_lt_of_route? h.regular h.entries h.matcher h.hidden hi hr

/-- If the configuration lists no documents, those of dispatchers that are referenced are the only
ones that are found in libraries. -/
theorem exists_target (hnone : m.config.passThroughs.getD [] = []) {seen : Request}
    {document : Document} (hfinds : docs.FindsInLibrary seen w document) :
    ∃ target ∈ t.context.dispatch.referenced,
      Text.trim (· = '/') seen.uri.path = Text.trim (· = '/') target.dispatcher := by
  obtain ⟨name, hname, hpath⟩ := hfinds.exists_passThrough
  rw [h.passThroughs, hnone] at hname
  obtain ⟨target, htarget, rfl⟩ := hname.resolve_left List.not_mem_nil
  rw [Text.trim_trim] at hpath
  exact ⟨target, htarget, hpath.symm⟩

/-- A request from outside that isn't forwarded gets to documents through a public route. -/
theorem isDirect {client seen : Request} {d : Documents} (hi : client.isInternal = false)
    (ht : Travels w app.handler client [] (.documents d) seen) :
    IsDirect w router handlers table.length client (.documents d) seen := by
  obtain ⟨pages, happ⟩ := h.root
  have hstage := stage_of_travels happ rfl ht rfl
  rw [happ] at hstage
  obtain ⟨turn, chance, s, next, hs, hn, hbeyond⟩ := hstage.exists_beyond rfl nofun nofun nofun
  have hentered := client.isInternal_enterApplication.trans hi
  exact ⟨turn, chance, s, next, hs, (h.place_lt hentered hs).1, hn, hbeyond⟩

end HasManual

/-- The manual resource of an application finds nothing in libraries but the documents of
dispatchers that are referenced, under their names, if the configuration lists no others. It never
gets a request from outside from where it's mounted. So such a request finds one of these documents
only if it was forwarded by a dispatch, from which on it has the identifier of the dispatch, or by a
capture or an error page, or if it came through one of the public routes of the application. -/
theorem access_to_dispatchers (hs : s.Building w₀) (h : (application config).Gives s app t)
    (hm : t.context.manual = some m) (hnone : m.config.passThroughs.getD [] = []) :
    ∃ docs router handlers table e, HasManual config app t m docs router handlers table e ∧
      ∀ client : Request, client.isInternal = false →
        (∀ turn chance s, router.route? turn chance client = some s →
          s.place < table.length ∧ ¬e.route.Covers client.uri.path) ∧
        ∀ (w w' : World) forwarders seen document,
          Travels w app.handler client forwarders (.documents docs) seen →
          docs.FindsInLibrary seen w' document →
          (∃ target ∈ t.context.dispatch.referenced,
            Text.trim (· = '/') seen.uri.path = Text.trim (· = '/') target.dispatcher) ∧
          ((∃ f ∈ forwarders, f.isDispatch = true) ∧
              (app.handler.Keeps Attribute.dispatchId →
                (∀ target x, w.handler? target = some x → x.Keeps Attribute.dispatchId) →
                seen.Has Attribute.dispatchId) ∨
            (∃ f ∈ forwarders, f.isDispatch = false) ∨
            forwarders = [] ∧
              IsDirect w router handlers table.length client (.documents docs) seen) := by
  obtain ⟨docs, router, handlers, table, e, hmanual⟩ := exists_hasManual hs h hm
  refine ⟨docs, router, handlers, table, e, hmanual, fun client hi => ⟨?_, ?_⟩⟩
  · intro turn chance s hr
    exact hmanual.place_lt hi hr
  intro w w' forwarders seen document htravels hfinds
  refine ⟨hmanual.exists_target hnone hfinds, ?_⟩
  by_cases hd : ∃ f ∈ forwarders, f.isDispatch = true
  · exact Or.inl ⟨hd, fun happ hw => htravels.has_dispatchId happ hw hd⟩
  · cases forwarders with
    | nil => exact Or.inr (Or.inr ⟨rfl, hmanual.isDirect hi htravels⟩)
    | cons f rest =>
      have hf : f.isDispatch = false :=
        Bool.eq_false_iff.mpr fun hf => hd ⟨f, List.mem_cons_self, hf⟩
      exact Or.inr (Or.inl ⟨f, List.mem_cons_self, hf⟩)

/-- An application with a public route to its manual resource, with a dispatch, and with a capture
to where the manual resource is mounted. -/
def doorsConfig : Config where
  routes := ⟨[("/m/*", .node (.manual {})), ("/go/", .node (.dispatch { id := "item" })),
    ("/by/", .node (.capture { uri := "/_manual/dispatchers/lang/" }))]⟩
  dispatchers := (langConfig "/dispatchers/lang/").dispatchers

/-- Follows a request on its way for a number of steps, in the first turn of every router, until it
gets to a slot. Stops where it's passed on in other ways. -/
def travel (w : World) (place : Nat) : Nat → List Forwarder → Handler → Request →
    Option (List Forwarder × Request)
  | fuel + 1, forwarders, .layer .applicationRoot next, req =>
    travel w place fuel forwarders next req.enterApplication
  | fuel + 1, forwarders, .router r handlers, req => do
    let s ← r.route? 0 0 req
    travel w place fuel forwarders (← handlers[s.place]?) s.req
  | fuel + 1, forwarders, .capture c application, req => do
    let f := Forwarder.capture c application
    travel w place fuel (forwarders ++ [f]) (← w.handler? f.target) (← f.forward? req)
  | fuel + 1, forwarders, .dispatch d table application, req => do
    let f := Forwarder.dispatch d
      (← ((w.tables.getD table {}).get? d.dispatcher).bind (·.uri)) table application
    travel w place fuel (forwarders ++ [f]) (← w.handler? f.target) (← f.forward? req)
  | _ + 1, forwarders, .slot slot, req => if slot = place then some (forwarders, req) else none
  | _, _, _, _ => none

theorem travels_of_travel {place fuel : Nat} {start h : Handler} {client req req' : Request}
    {forwarders forwarders' : List Forwarder} (ht : Travels w start client forwarders h req)
    (hf : travel w place fuel forwarders h req = some (forwarders', req')) :
    Travels w start client forwarders' (.slot place) req' := by
  fun_induction travel w place fuel forwarders h req with
  | case1 fuel forwarders next req ih => exact ih (ht.pass (.layer next rfl)) hf
  | case2 fuel forwarders r handlers req ih =>
    obtain ⟨s, hs, hf⟩ := Option.bind_eq_some_iff.mp hf
    obtain ⟨next, hn, hf⟩ := Option.bind_eq_some_iff.mp hf
    exact ih s next (ht.pass (.router hs hn)) hf
  | case3 fuel forwarders c application req f ih =>
    obtain ⟨h, hh, hf⟩ := Option.bind_eq_some_iff.mp hf
    obtain ⟨next, hn, hf⟩ := Option.bind_eq_some_iff.mp hf
    exact ih h next (ht.forward (f := .capture c application) hn hh) hf
  | case4 fuel forwarders d table application req ih =>
    obtain ⟨uri, -, hf⟩ := Option.bind_eq_some_iff.mp hf
    obtain ⟨h, hh, hf⟩ := Option.bind_eq_some_iff.mp hf
    obtain ⟨next, hn, hf⟩ := Option.bind_eq_some_iff.mp hf
    exact ih uri h next (ht.forward (f := .dispatch d uri table application) hn hh) hf
  | case5 =>
    cases hf
    exact ht
  | case6 | case7 => cases hf

/-- What is found in a library for a request to an application. -/
structure Lookup where
  forwarders : List Forwarder
  seen : Request
  document : Document
  executor : Executor
  world : World

/-- What the manual resource of an application finds for a request, if it's none of its own
documents. -/
def lookup? (app : Application) (t : State) (m : Singleton ManualNode) (client : Request) :
    Option Lookup := do
  let docs ← ((t.world.slots[m.slot]?).bind Slot.get?).bind documents?
  let (forwarders, seen) ← travel t.world m.slot 6 [] app.handler client
  let (own, _) ← Serving.find docs.source seen.uri.path t.world
  let (found, world) ← docs.find seen.uri.path t.world
  let document ← found
  let executor ← docs.registry.executor? document.extension
  if own.isNone then some ⟨forwarders, seen, document, executor, world⟩ else none

variable {docs : Documents} {resource : Handler}

/-- What is found is found by the manual resource, which the request got to. -/
theorem spec_lookup? {client : Request} {v : Lookup} (h : lookup? app t m client = some v)
    (hslot : t.world.slots[m.slot]? = some (.owned resource)) (hr : IsResource docs resource) :
    Travels t.world app.handler client v.forwarders resource v.seen ∧
      docs.FindsInLibrary v.seen t.world v.document ∧
      docs.find v.seen.uri.path t.world = some (some v.document, v.world) ∧
      docs.registry.executor? v.document.extension = some v.executor := by
  obtain ⟨docs', hdocs, h⟩ := Option.bind_eq_some_iff.mp h
  obtain ⟨⟨forwarders, seen⟩, htravel, h⟩ := Option.bind_eq_some_iff.mp h
  obtain ⟨⟨own, w₁⟩, hown, h⟩ := Option.bind_eq_some_iff.mp h
  obtain ⟨⟨found, w₂⟩, hfound, h⟩ := Option.bind_eq_some_iff.mp h
  obtain ⟨document, hdocument, h⟩ := Option.bind_eq_some_iff.mp h
  obtain ⟨executor, hexecutor, h⟩ := Option.bind_eq_some_iff.mp h
  rw [hdocument] at hfound
  split at h
  · rename_i hnone
    obtain rfl := Option.some.inj h
    obtain rfl := Option.isNone_iff_eq_none.mp hnone
    obtain rfl : docs = docs' := by
      rw [hslot] at hdocs
      exact Option.some.inj (hr.documents?_eq.symm.trans hdocs)
    have hhandler : t.world.handler? (.slot m.slot) = some resource := by
      simp [World.handler?, hslot, Slot.get?]
    exact ⟨(travels_of_travel .start htravel).slot hhandler, ⟨w₁, w₂, hown, hfound⟩, hfound,
      hexecutor⟩
  · cases h

/-- A request for the document through the public route. -/
def openRequest : Request where
  uri := ⟨"/m/dispatchers/lang/", none⟩

/-- A request that is dispatched. -/
def goRequest : Request where
  uri := ⟨"/go/", none⟩

/-- A request that is captured. -/
def byRequest : Request where
  uri := ⟨"/by/", none⟩

/-- Whether a document of a dispatcher is found, and can be executed, without a dispatch having
forwarded the request. -/
structure Lookup.IsUndispatched (v : Lookup) (t : State) : Prop where
  id : ¬v.seen.Has Attribute.dispatchId
  target : ∃ target ∈ t.context.dispatch.referenced,
    Text.trim (· = '/') v.seen.uri.path = Text.trim (· = '/') target.dispatcher
  slash : Text.endsWith "/" v.seen.uri.path = true
  since : v.seen.headers.get? .ifModifiedSince = none

instance (v : Lookup) (t : State) : Decidable (v.IsUndispatched t) :=
  decidable_of_iff (¬v.seen.Has Attribute.dispatchId ∧
      (∃ target ∈ t.context.dispatch.referenced,
        Text.trim (· = '/') v.seen.uri.path = Text.trim (· = '/') target.dispatcher) ∧
      Text.endsWith "/" v.seen.uri.path = true ∧ v.seen.headers.get? .ifModifiedSince = none)
    ⟨fun ⟨h₁, h₂, h₃, h₄⟩ => ⟨h₁, h₂, h₃, h₄⟩, fun ⟨h₁, h₂, h₃, h₄⟩ => ⟨h₁, h₂, h₃, h₄⟩⟩

/-- The document is found for all three requests, of which only one was dispatched. -/
theorem doors : ∃ p ∈ assembledIn? doorsConfig (langState "/dispatchers/lang/"), ∃ m ∈ p.2.context.manual,
    m.config.passThroughs.getD [] = [] ∧
    (∀ x ∈ p.1.handler :: p.2.world.handlers, ∀ node ∈ x.nodes, node.filter?.isNone) ∧
    (∃ v ∈ lookup? p.1 p.2 m openRequest, v.forwarders.isEmpty ∧ v.IsUndispatched p.2) ∧
    (∃ v ∈ lookup? p.1 p.2 m goRequest, v.forwarders.map (·.isDispatch) = [true]) ∧
    ∃ v ∈ lookup? p.1 p.2 m byRequest, ¬v.forwarders.isEmpty ∧ v.IsUndispatched p.2 := by
  decide +kernel

theorem IsResource.travels {start : Handler} {client seen : Request} {forwarders : List Forwarder}
    (hr : IsResource docs resource) (ht : Travels w start client forwarders resource seen) :
    Travels w start client forwarders (.documents docs) seen := by
  rcases hr with rfl | ⟨compress, rfl⟩
  · exact ht
  · exact ht.pass (.layer _ rfl)

/-- A request through the public route finds the document without being forwarded. One that was
dispatched has the identifier of the dispatch. -/
theorem access_to_dispatchers_doors : ∃ app t m docs router handlers table e,
    (application doorsConfig).Gives (langState "/dispatchers/lang/") app t ∧
    t.context.manual = some m ∧ m.config.passThroughs.getD [] = [] ∧
    HasManual doorsConfig app t m docs router handlers table e ∧
    (∃ seen document, Travels t.world app.handler openRequest [] (.documents docs) seen ∧
      docs.FindsInLibrary seen t.world document ∧
      IsDirect t.world router handlers table.length openRequest (.documents docs) seen) ∧
    ∃ forwarders seen document,
      Travels t.world app.handler goRequest forwarders (.documents docs) seen ∧
      docs.FindsInLibrary seen t.world document ∧ (∃ f ∈ forwarders, f.isDispatch = true) ∧
      seen.Has Attribute.dispatchId := by
  obtain ⟨⟨app, t⟩, happ, m, hm, hnone, hfilters, ⟨v, hv, hnil, -⟩, ⟨v', hv', hdispatch⟩, -⟩ :=
    doors
  have hgives := gives_of_assembledIn? happ
  obtain ⟨docs, router, handlers, table, e, hmanual, haccess⟩ :=
    access_to_dispatchers (building_langState _) hgives hm hnone
  obtain ⟨resource, hslot, hresource⟩ := hmanual.resource
  obtain ⟨hgets, hfinds, -⟩ := spec_lookup? hv hslot hresource
  obtain ⟨hgets', hfinds', -⟩ := spec_lookup? hv' hslot hresource
  rw [List.isEmpty_iff.mp hnil] at hgets
  have hkeeps (x : Handler) (hx : x ∈ app.handler :: t.world.handlers) :
      x.Keeps Attribute.dispatchId := by
    intro node hn f hf
    have hnone := hfilters x hx node hn
    rw [hf] at hnone
    cases hnone
  refine ⟨app, t, m, docs, router, handlers, table, e, hgives, hm, hnone, hmanual,
    ⟨_, _, hresource.travels hgets, hfinds, ?_⟩, _, _, _, hresource.travels hgets', hfinds', ?_⟩
  · obtain ⟨-, hways⟩ :=
      (haccess openRequest rfl).2 _ _ _ _ _ (hresource.travels hgets) hfinds
    rcases hways with ⟨⟨f, hf, -⟩, -⟩ | ⟨f, hf, -⟩ | ⟨-, hdirect⟩
    · cases hf
    · cases hf
    · exact hdirect
  · obtain ⟨-, hways⟩ := (haccess goRequest rfl).2 _ _ _ _ _ (hresource.travels hgets') hfinds'
    have hall : ∀ f ∈ v'.forwarders, f.isDispatch = true := by
      intro f hf
      have hmem := List.mem_map_of_mem (f := Forwarder.isDispatch) hf
      rw [hdispatch] at hmem
      exact List.mem_singleton.mp hmem
    rcases hways with ⟨hd, hid⟩ | ⟨f, hf, hcapture⟩ | ⟨hempty, -⟩
    · refine ⟨hd, hid (hkeeps _ List.mem_cons_self) fun target x hx => ?_⟩
      exact hkeeps x (List.mem_cons_of_mem _ (World.mem_handlers hx))
    · exact absurd (hall f hf) (by simp [hcapture])
    · rw [hempty] at hdispatch
      cases hdispatch

/-- Whether the documents of dispatchers are executed with the identifier of a dispatch only, for
requests from outside that were forwarded in one of the given ways. -/
def OnlyDispatched (app : Application) (t : State) (docs : Documents) (resource : Handler)
    (ways : List Forwarder → Prop) : Prop :=
  ∀ (client : Request) forwarders seen, client.attributes = {} → ways forwarders →
    Travels t.world app.handler client forwarders resource seen →
    ∀ document executor w, (∃ target ∈ t.context.dispatch.referenced,
        Text.trim (· = '/') seen.uri.path = Text.trim (· = '/') target.dispatcher) →
      docs.FindsInLibrary seen t.world document →
      Executes docs document executor seen w (resource.run (World.jump 0) seen t.world) →
      seen.Has Attribute.dispatchId

/-- What is found without a dispatch is executed. -/
theorem Lookup.IsUndispatched.refutes {v : Lookup} {client : Request}
    {ways : List Forwarder → Prop} (h : v.IsUndispatched t) (hc : client.attributes = {})
    (hv : lookup? app t m client = some v) (hways : ways v.forwarders)
    (hslot : t.world.slots[m.slot]? = some (.owned resource)) (hr : IsResource docs resource) :
    ¬OnlyDispatched app t docs resource ways := by
  intro hclaim
  obtain ⟨hgets, hfinds, hfind, hexecutor⟩ := spec_lookup? hv hslot hr
  have hserve := Documents.serve_of_endsWith hfind h.slash h.since hexecutor
  exact h.id (hclaim client _ _ hc hways hgets _ _ _ h.target hfinds (hr.executes hserve _))

/-- The document of a dispatcher may be executed for a request from outside that no dispatch has
forwarded, though the configuration lists no documents: be it that the request comes through a
public route of the manual resource without being forwarded, be it that it was captured. -/
theorem not_only_dispatched : ¬∀ (w₀ : World) (config : Config) (s t : State) (app : Application)
    (m : Singleton ManualNode) (docs : Documents) (resource : Handler), s.Building w₀ →
    (application config).Gives s app t → t.context.manual = some m →
    (∃ key node, (key, .node (.manual node)) ∈ config.routes.entries) →
    m.config.passThroughs.getD [] = [] →
    t.world.slots[m.slot]? = some (.owned resource) → IsResource docs resource →
    OnlyDispatched app t docs resource (· = []) ∨ OnlyDispatched app t docs resource (· ≠ []) := by
  intro hclaim
  obtain ⟨⟨app, t⟩, happ, m, hm, hnone, -, ⟨v, hv, hnil, hopen⟩, -, v', hv', hne, hby⟩ := doors
  have hgives := gives_of_assembledIn? happ
  obtain ⟨docs, router, handlers, table, e, hmanual⟩ :=
    exists_hasManual (building_langState _) hgives hm
  obtain ⟨resource, hslot, hresource⟩ := hmanual.resource
  rcases hclaim _ _ _ _ _ _ _ _ (building_langState _) hgives hm ⟨"/m/*", {}, by simp [doorsConfig]⟩
    hnone hslot hresource with h | h
  · exact hopen.refutes rfl hv (List.isEmpty_iff.mp hnil) hslot hresource h
  · exact hby.refutes rfl hv' (mt List.isEmpty_iff.mpr hne) hslot hresource h

end Assembly

end RequestRouting
