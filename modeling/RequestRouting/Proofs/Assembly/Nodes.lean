import RequestRouting.Proofs.Assembly.Finished
import RequestRouting.Proofs.Route.Collapse

/-!
# What nodes are resolved into

However deep routers are nested in an application, their routes are read from cleaned keys. Nothing
inside of an application strips a mount point or records one, as that's done in front of it.
-/

namespace RequestRouting

/-- An entry whose route is read from a cleaned URI. -/
structure Router.Entry.IsRead (e : Entry) : Prop where
  cleaned : ∃ uri, Route.parse (clean uri) = .ok e.route
  matcher : e.route.matcher = .ok e.matcher

/-- Whether a middleware stands in front of applications only. -/
def Middleware.isOuter : Middleware → Bool
  | .basePath _ | .applicationRoot => true
  | _ => false

namespace Handler

/-- Whether a handler, whatever it passes requests on to, may be that of a node. -/
def IsInner : Handler → Prop
  | .router r _ => ∀ e ∈ r.entries, e.IsRead
  | .layer middleware _ => middleware.isOuter = false
  | _ => True

/-- Whether all handlers in a tree may be those of nodes. -/
def IsInside (h : Handler) : Prop := ∀ node ∈ h.nodes, node.IsInner

theorem isInside_router {r : Router} {handlers : List Handler} :
    (router r handlers).IsInside ↔ (∀ e ∈ r.entries, e.IsRead) ∧ ∀ h ∈ handlers, h.IsInside := by
  simp only [IsInside, nodes, List.forall_mem_cons, mem_nodesAll, forall_exists_index, and_imp]
  exact and_congr_right fun _ => ⟨fun h x hx node hn => h node x hx hn,
    fun h node x hx hn => h x hx node hn⟩

theorem isInside_layer {middleware : Middleware} {next : Handler} :
    (layer middleware next).IsInside ↔ middleware.isOuter = false ∧ next.IsInside := by
  rw [IsInside, nodes, List.forall_mem_cons]
  rfl

theorem isInside_chain {c : Chain} {handlers : List Handler}
    (h : ∀ x ∈ handlers, x.IsInside) : (chain c handlers).IsInside := by
  rw [IsInside, nodes, List.forall_mem_cons]
  refine ⟨trivial, fun node hn => ?_⟩
  obtain ⟨x, hx, hn⟩ := mem_nodesAll.mp hn
  exact h x hx node hn

/-- A handler that is all of its tree is that of a node, unless it's a router or a layer. -/
theorem isInside_leaf {h : Handler} (hn : h.nodes = [h]) (hi : h.IsInner) : h.IsInside := by
  rw [IsInside, hn]
  exact List.forall_mem_singleton.mpr hi

theorem isInside_notFound : notFound.IsInside := isInside_leaf rfl trivial

end Handler

/-- Whether a node is resolved into a handler all of which may be that of nodes. -/
def Resolved.IsInside (r : Resolved) : Prop := r.toHandler.IsInside

namespace Assembly

open Handler (isInside_router isInside_layer isInside_chain isInside_leaf isInside_notFound)

variable {α β : Type} {P Q : α → Prop}

/-- Whether an action yields only what has a property, in a context without prebuilt nodes. -/
def Makes (x : Assembly α) (P : α → Prop) : Prop :=
  ∀ s a t, x.Gives s a t → s.context.prebuilt = [] → t.context.prebuilt = [] ∧ P a

namespace Makes

theorem pure {a : α} (h : P a) : Makes (Pure.pure a) P := by
  intro s b t hg hs
  obtain ⟨rfl, rfl⟩ := gives_pure.mp hg
  exact ⟨hs, h⟩

theorem throw (e : Error) : Makes (MonadExcept.throw e : Assembly α) P :=
  fun _ _ _ h => absurd h gives_throw

theorem bind {x : Assembly α} {f : α → Assembly β} {R : β → Prop} (hx : Makes x P)
    (hf : ∀ a, P a → Makes (f a) R) : Makes (x >>= f) R := by
  intro s b t h hs
  obtain ⟨a, u, ha, hb⟩ := gives_bind.mp h
  obtain ⟨hu, hp⟩ := hx s a u ha hs
  exact hf a hp u b t hb hu

theorem located {x : Assembly α} (hx : Makes x P) (uri : String) : Makes (located uri x) P :=
  fun s a t h => hx s a t (gives_located.mp h)

theorem withTtl {x : Assembly α} (hx : Makes x P) (ttl : Option Duration) :
    Makes (withTtl ttl x) P := by
  cases ttl with
  | none => exact hx
  | some ttl =>
    intro s a t h hs
    obtain ⟨u, hu, rfl⟩ := gives_withTtl.mp h
    exact hx { s with context.chainTtl := some ttl } a u hu hs

end Makes

theorem makes_context : Makes context fun _ => True := by
  intro s c t h hs
  obtain ⟨-, rfl⟩ := gives_context.mp h
  exact ⟨hs, trivial⟩

theorem makes_modifyContext {change : Context → Context}
    (h : ∀ c, (change c).prebuilt = c.prebuilt) : Makes (modifyContext change) fun _ => True := by
  intro s c t hg hs
  obtain rfl := gives_modifyContext.mp hg
  exact ⟨(h s.context).trans hs, trivial⟩

theorem makes_add (f : World → Nat × World) : Makes (add f) fun _ => True := by
  intro s place t h hs
  obtain ⟨-, rfl⟩ := gives_add.mp h
  exact ⟨hs, trivial⟩

/-! The actions that nodes are resolved by. -/

theorem makes_chainOf (ttl : Duration) {handlers : List Handler}
    (h : ∀ x ∈ handlers, x.IsInside) : Makes (chainOf ttl handlers) Handler.IsInside := by
  unfold chainOf
  split
  · exact .pure isInside_notFound
  · exact .pure (h _ (List.mem_singleton_self _))
  · exact (makes_add _).bind fun place _ => .pure (isInside_chain h)

theorem makes_compressed (isCompressed : Bool) {handler : Handler} (h : handler.IsInside) :
    Makes (compressed isCompressed handler) Handler.IsInside := by
  unfold compressed
  split
  · exact makes_context.bind fun c _ => .pure (isInside_layer.mpr ⟨rfl, h⟩)
  · exact .pure h

theorem makes_staticRoots (node : StaticNode) :
    Makes (staticRoots node) fun handlers => ∀ x ∈ handlers, x.IsInside := by
  intro s handlers t h hs
  simp only [staticRoots, gives_bind, gives_get, gives_pure] at h
  obtain ⟨_, _, ⟨rfl, rfl⟩, rfl, rfl⟩ := h
  refine ⟨hs, fun x hx => ?_⟩
  obtain ⟨root, -, hroot⟩ := List.mem_filterMap.mp hx
  obtain ⟨files, -, rfl⟩ := Option.map_eq_some_iff.mp hroot
  exact isInside_layer.mpr ⟨rfl, isInside_notFound⟩

theorem makes_registerManual (node : ManualNode) : Makes (registerManual node) fun _ => True := by
  refine makes_context.bind fun c _ => ?_
  split
  · refine (makes_add _).bind fun slot _ => (makes_modifyContext ?_).bind fun _ _ => .pure trivial
    exact fun _ => rfl
  · split
    · exact .pure trivial
    · exact .throw _

theorem makes_registerTemplates (node : TemplatesNode) :
    Makes (registerTemplates node) fun _ => True := by
  refine makes_context.bind fun c _ => ?_
  split
  · refine (makes_add _).bind fun slot _ => (makes_modifyContext ?_).bind fun _ _ => .pure trivial
    exact fun _ => rfl
  · split
    · exact .pure trivial
    · exact .throw _

theorem makes_hide (uri : String) : Makes (hide uri) fun _ => True :=
  makes_modifyContext fun _ => rfl

theorem makes_resolveStatic (node : StaticNode) :
    Makes (resolveStatic node) Resolved.IsInside := by
  refine makes_context.bind fun c _ => (makes_staticRoots node).bind fun handlers hh => ?_
  refine (makes_chainOf _ hh).bind fun handler hh => ?_
  exact (makes_compressed _ hh).bind fun handler hh => .pure hh

theorem makes_resolveDispatch (node : DispatchNode) :
    Makes (resolveDispatch node) Resolved.IsInside := by
  refine makes_context.bind fun c _ => (makes_modifyContext ?_).bind fun _ _ => ?_
  · exact fun _ => rfl
  · exact .pure (isInside_leaf rfl trivial)

theorem makes_resolveCapture (node : CaptureNode) :
    Makes (resolveCapture node) Resolved.IsInside := by
  have hrest (uri : String) : Makes (do return Resolved.handler (.capture (.ofNode node uri)
      (← context).application)) Resolved.IsInside :=
    makes_context.bind fun c _ => .pure (isInside_leaf rfl trivial)
  unfold resolveCapture
  dsimp only
  split
  · exact (makes_hide _).bind fun _ _ => hrest _
  · exact hrest _

theorem makes_resolveRedirect (node : RedirectNode) :
    Makes (resolveRedirect node) Resolved.IsInside := by
  unfold resolveRedirect
  split
  · exact .pure (isInside_leaf rfl trivial)
  · exact makes_context.bind fun c _ => .pure (isInside_leaf rfl trivial)

theorem makes_filterOf (document : String) :
    Makes (filterOf document) fun middleware => middleware.isOuter = false :=
  makes_context.bind fun _ _ => .pure rfl

theorem makes_compilerOf (pipeline : Pipeline) : Makes (compilerOf pipeline) fun _ => True := by
  unfold compilerOf
  split
  · refine makes_context.bind fun c _ => ?_
    split
    · exact .pure trivial
    · exact .throw _
  · exact .pure trivial

theorem makes_assetsOf {δ : Type} (pipeline : Pipeline) (compiler : Option Compiler)
    (node : AssetNode δ) :
    Makes (assetsOf pipeline compiler node) fun middleware => middleware.isOuter = false :=
  makes_context.bind fun _ _ => (makes_add _).bind fun _ _ => .pure rfl

theorem makes_routeOf (text : String) :
    Makes (routeOf text) fun route => Route.parse text = .ok route := by
  unfold routeOf
  split
  · rename_i h
    exact .pure h
  · exact .throw _

theorem makes_requireMode (mode : RoutingMode) : Makes (requireMode mode) fun _ => True := by
  unfold requireMode
  split
  · exact .throw _
  · exact .pure trivial

/-- Whether a router with its handlers may be that of a node. -/
def IsInsideRouter (p : Router × List Handler) : Prop := (Handler.router p.1 p.2).IsInside

theorem makes_attachResolved {route : Route} {uri : String} {p : Router × List Handler}
    {resolved : Resolved} (hroute : Route.parse (clean uri) = .ok route) (hp : IsInsideRouter p)
    (hr : resolved.IsInside) : Makes (attachResolved route p resolved) IsInsideRouter := by
  obtain ⟨r, handlers⟩ := p
  obtain ⟨hentries, hhandlers⟩ := isInside_router.mp hp
  cases resolved with
  | hidden =>
    refine .pure (isInside_router.mpr ⟨?_, hhandlers⟩)
    rwa [Router.entries_hide]
  | handler handler =>
    intro s q t h hs
    obtain ⟨rfl, hq, matcher, hm, hrouter⟩ := gives_attachResolved h
    refine ⟨hs, isInside_router.mpr ⟨?_, ?_⟩⟩
    · rw [hrouter]
      refine List.forall_mem_append.mpr ⟨hentries, List.forall_mem_singleton.mpr ?_⟩
      exact ⟨⟨uri, hroute⟩, hm⟩
    · rw [hq]
      exact List.forall_mem_append.mpr ⟨hhandlers, List.forall_mem_singleton.mpr hr⟩

end Assembly

open Assembly
open Handler (isInside_router isInside_layer isInside_chain isInside_leaf isInside_notFound)

variable {prebuilt : ResolvePrebuilt}

mutual

/-- A descriptor is resolved into a handler all of which may be that of nodes. -/
theorem Descriptor.makes_resolve (hp : ∀ name uri, Makes (prebuilt name uri) Resolved.IsInside) :
    (d : Descriptor) → (uri : String) → Makes (d.resolve prebuilt uri) Resolved.IsInside
  | .hidden, _ => by
    rw [Descriptor.resolve]
    exact .pure isInside_notFound
  | .chain nodes, uri => by
    rw [Descriptor.resolve]
    refine makes_context.bind fun c _ => (makes_resolveAll hp nodes uri).bind fun handlers hh => ?_
    exact (makes_chainOf _ hh).bind fun handler hh => .pure hh
  | .node n, uri => by
    rw [Descriptor.resolve]
    exact n.makes_resolve hp uri
  | .prebuilt name, uri => by
    rw [Descriptor.resolve]
    exact hp name uri
  termination_by structural d => d

theorem makes_resolveAll (hp : ∀ name uri, Makes (prebuilt name uri) Resolved.IsInside) :
    (nodes : List Descriptor) → (uri : String) →
      Makes (resolveAll prebuilt nodes uri) fun handlers => ∀ x ∈ handlers, x.IsInside
  | [], _ => by
    rw [resolveAll]
    exact .pure nofun
  | d :: rest, uri => by
    rw [resolveAll]
    refine (d.makes_resolve hp uri).bind fun resolved hr => ?_
    cases resolved with
    | hidden => exact makes_resolveAll hp rest uri
    | handler handler =>
      refine (makes_resolveAll hp rest uri).bind fun handlers hh => .pure ?_
      exact List.forall_mem_cons.mpr ⟨hr, hh⟩
  termination_by structural l => l

theorem makes_resolveRoutes (hp : ∀ name uri, Makes (prebuilt name uri) Resolved.IsInside) :
    (entries : List (String × Descriptor)) → (uri : String) → (router : Router × List Handler) →
      IsInsideRouter router → Makes (resolveRoutes prebuilt entries uri router) IsInsideRouter
  | [], _, router, hr => by
    rw [resolveRoutes]
    exact .pure hr
  | (key, d) :: rest, uri, router, hr => by
    rw [resolveRoutes]
    refine ((makes_routeOf _).located _).bind fun route hroute => ?_
    refine ((d.makes_resolve hp _).located _).bind fun resolved hresolved => ?_
    refine ((makes_attachResolved hroute hr hresolved).located _).bind fun router hr => ?_
    exact makes_resolveRoutes hp rest uri router hr
  termination_by structural l => l

theorem makes_resolveOrdered (hp : ∀ name uri, Makes (prebuilt name uri) Resolved.IsInside) :
    (routes : Ordered Descriptor) → (uri : String) → (mode : RoutingMode) →
      (ttl : Option Duration) → Makes (resolveOrdered prebuilt routes uri mode ttl) IsInsideRouter
  | ⟨entries⟩, uri, mode, ttl => by
    rw [resolveOrdered]
    refine (makes_requireMode mode).bind fun _ _ => (makes_add _).bind fun place _ => ?_
    refine (makes_resolveRoutes hp entries uri ({ mode, place }, []) ?_).withTtl ttl
    exact isInside_router.mpr ⟨nofun, nofun⟩
  termination_by structural routes => routes

theorem Node.makes_resolve (hp : ∀ name uri, Makes (prebuilt name uri) Resolved.IsInside) :
    (n : Node) → (uri : String) → Makes (n.resolve prebuilt uri) Resolved.IsInside
  | .static node, _ => by
    rw [Node.resolve]
    exact makes_resolveStatic node
  | .manual node, _ => by
    rw [Node.resolve]
    exact (makes_registerManual node).bind fun slot _ => .pure (isInside_leaf rfl trivial)
  | .templates node, _ => by
    rw [Node.resolve]
    exact (makes_registerTemplates node).bind fun slot _ => .pure (isInside_leaf rfl trivial)
  | .dispatch node, _ => by
    rw [Node.resolve]
    exact makes_resolveDispatch node
  | .capture node, _ => by
    rw [Node.resolve]
    exact makes_resolveCapture node
  | .redirect node, _ => by
    rw [Node.resolve]
    exact makes_resolveRedirect node
  | .addSlash, _ => by
    rw [Node.resolve]
    exact .pure (isInside_layer.mpr ⟨rfl, isInside_notFound⟩)
  | .router ⟨routes, mode, ttl⟩, uri => by
    rw [Node.resolve]
    exact (makes_resolveOrdered hp routes uri mode ttl).bind fun router hr => .pure hr
  | .chain ⟨nodes, ttl⟩, uri => by
    rw [Node.resolve]
    refine makes_context.bind fun c _ => (makes_resolveAll hp nodes uri).bind fun handlers hh => ?_
    exact (makes_chainOf _ hh).bind fun handler hh => .pure hh
  | .filter ⟨library, next⟩, uri => by
    rw [Node.resolve]
    refine (next.makes_resolve hp uri).bind fun next hn => ?_
    exact (makes_filterOf _).bind fun middleware hm => .pure (isInside_layer.mpr ⟨hm, hn⟩)
  | .injector ⟨locals, next⟩, uri => by
    rw [Node.resolve]
    exact (next.makes_resolve hp uri).bind fun next hn => .pure (isInside_layer.mpr ⟨rfl, hn⟩)
  | .cacheControl ⟨mediaTypes, default, next⟩, uri => by
    rw [Node.resolve]
    exact (next.makes_resolve hp uri).bind fun next hn => .pure (isInside_layer.mpr ⟨rfl, hn⟩)
  | .cors ⟨allowOrigin, allowMethods, allowHeaders, maxAge, next⟩, uri => by
    rw [Node.resolve]
    exact (next.makes_resolve hp uri).bind fun next hn => .pure (isInside_layer.mpr ⟨rfl, hn⟩)
  | .basicAuth ⟨credentials, realm, next⟩, uri => by
    rw [Node.resolve]
    exact (next.makes_resolve hp uri).bind fun next hn => .pure (isInside_layer.mpr ⟨rfl, hn⟩)
  | .status node, _ => by
    rw [Node.resolve]
    split
    · exact .pure (isInside_leaf rfl trivial)
    · exact .throw _
  | .resource node, _ => by
    rw [Node.resolve]
    refine makes_context.bind fun c _ => ?_
    split
    · exact .pure (isInside_leaf rfl trivial)
    · exact .throw _
  | .assets pipeline ⟨roots, next, minify⟩, uri => by
    rw [Node.resolve]
    refine (makes_compilerOf pipeline).bind fun compiler _ => ?_
    refine (next.makes_resolve hp uri).bind fun next hn => ?_
    exact (makes_assetsOf _ _ _).bind fun middleware hm => .pure (isInside_layer.mpr ⟨hm, hn⟩)
  termination_by structural n => n

end

namespace Assembly

/-- Without prebuilt nodes, all of them are hidden. -/
theorem makes_resolvePrebuilt (fuel : Nat) (name uri : String) :
    Makes (resolvePrebuilt fuel name uri) Resolved.IsInside := by
  cases fuel with
  | zero => exact .throw _
  | succ fuel =>
    intro s r t h hs
    simp only [resolvePrebuilt, gives_bind, gives_context] at h
    obtain ⟨c, _, ⟨rfl, rfl⟩, h⟩ := h
    simp only [hs, List.find?_nil, gives_pure] at h
    obtain ⟨rfl, rfl⟩ := h
    exact ⟨hs, isInside_notFound⟩

/-- A cleaned URI is cleaned with a star behind it, too. -/
theorem clean_star (uri : String) : clean (clean uri ++ "*") = clean uri ++ "*" := by
  refine String.ext ((toList_clean_append uri "*").trans ?_)
  rw [String.toList_append]
  exact congrArg _ (by cases Text.endsWith "/" (clean uri) <;> rfl)

/-- The URI at which the manual resource is mounted is cleaned. -/
theorem Finishes.eq_clean {w₀ : World} {s t : State} {internal : String} {slot : Nat}
    (h : Finishes w₀ s t (some (internal, slot))) : ∃ uri, internal = clean uri := by
  obtain ⟨m, -, hm⟩ := Option.map_eq_some_iff.mp h.mount.symm
  obtain ⟨rfl, -⟩ := Prod.mk.inj hm
  exact ⟨_, rfl⟩

theorem isInside_rootHandler {application : Nat} {router : Handler} {pages : Keyed Nat Capture} :
    (rootHandler application router pages).IsInside ↔ router.IsInside := by
  unfold rootHandler
  split
  · exact Iff.rfl
  · exact isInside_layer.trans (and_iff_right rfl)

/-- The handlers in an application, in its tree behind what records its mount point, may be those
of nodes. -/
theorem isInside_application {w₀ : World} {config : Config} {s t : State} {app : Application}
    (hs : s.Building w₀) (h : (application config).Gives s app t) :
    ∃ inner, app.handler = .layer .applicationRoot inner ∧ inner.IsInside := by
  simp only [application, gives_bind, gives_context, gives_modify, gives_pure] at h
  obtain ⟨_, _, ⟨rfl, rfl⟩, ⟨r₀, leaves⟩, s₁, hroutes, mount, s₂, hfinish, ⟨r₁, handlers⟩, s₃,
    hmount, pages, s₄, hpages, _, _, ⟨rfl, rfl⟩, r₂, s₅, hhide, _, _, rfl, rfl, rfl⟩ := h
  obtain ⟨hbuilding, -⟩ :=
    yields_resolveOrdered (yields_resolvePrebuilt _) config.routes "/" .best none [] _ _ _ hroutes
      hs (by simp)
  obtain ⟨-, hrouter⟩ :=
    makes_resolveOrdered (makes_resolvePrebuilt _) _ _ _ _ _ _ _ hroutes hs.prebuilt
  obtain ⟨hentries, hleaves⟩ := isInside_router.mp hrouter
  obtain ⟨-, -, hhandlers, hnone, hsome⟩ := gives_mountManual hmount
  obtain ⟨hhidden, -⟩ := entries_hideRoutes hhide
  dsimp only at hentries hleaves hhandlers hnone hsome
  refine ⟨_, rfl, isInside_rootHandler.mpr (isInside_router.mpr ⟨?_, ?_⟩)⟩
  · rw [hhidden]
    cases mount with
    | none => rwa [hnone rfl]
    | some mount =>
      obtain ⟨internal, slot⟩ := mount
      obtain ⟨e, he, hparse, hm⟩ := hsome internal slot rfl
      obtain ⟨uri, rfl⟩ := (finishes_of_gives hbuilding hfinish).eq_clean
      rw [he]
      rw [← clean_star] at hparse
      exact List.forall_mem_append.mpr
        ⟨hentries, List.forall_mem_singleton.mpr ⟨⟨_, hparse⟩, hm⟩⟩
  · rw [hhandlers]
    refine List.forall_mem_append.mpr ⟨hleaves, fun x hx => ?_⟩
    cases mount with
    | none => cases hx
    | some mount =>
      obtain rfl := List.mem_singleton.mp hx
      exact isInside_leaf rfl trivial

end Assembly

end RequestRouting
