import RequestRouting.Proofs.Assembly.Finished
import RequestRouting.Proofs.Assembly.Sites
import RequestRouting.Proofs.Assembly.Steps

/-!
# Errors name the route they're at

Resolving descriptors comes down to performing their checks in order. It succeeds if all of them
pass, and then leaves behind what they register. Otherwise, it fails with the error of the first one
that fails, which carries the URI of the innermost router entry around it, however many chains,
wrappers and routers there are in between.
-/

namespace RequestRouting

/-- The error that a failed check inside of a position is reported as there: outside of the router
entry it's in, it carries the URI of that entry. -/
def CheckSite.blame (position : List String) (site : CheckSite) (e : Error) : Error :=
  if site.position = [] then e else .route (uriAt (position ++ site.position)) e

namespace Assembly

variable {α β : Type} {position : List String} {sites more : List CheckSite} {x : Assembly α}
  {f : α → Assembly β} {P Q : α → Prop} {R : β → Prop}

/-- Whether an action comes down to performing checks in order, and yields only what has a property
if all of them pass. -/
structure Follows (position : List String) (sites : List CheckSite) (x : Assembly α)
    (Q : α → Prop) : Prop where
  gives : ∀ s r, passAll s.context.registry s.context.registered sites = .ok r →
    ∃ a t, x.Gives s a t ∧ Q a ∧ t.context.registered = r ∧
      t.context.registry = s.context.registry
  fails : ∀ s site e, passAll s.context.registry s.context.registered sites = .error (site, e) →
    (x s).1 = .error (site.blame position e)

namespace Follows

/-- An action that never fails and registers nothing needs no checks. -/
theorem quiet (h : ∀ s, ∃ a t, x.Gives s a t ∧ Q a ∧
    t.context.registered = s.context.registered ∧ t.context.registry = s.context.registry) :
    Follows position [] x Q where
  gives s r hr := by
    obtain rfl : s.context.registered = r := Except.ok.inj hr
    exact h s
  fails _ _ _ h := nomatch h

theorem pure {a : α} (h : Q a) : Follows position [] (Pure.pure a : Assembly α) Q :=
  .quiet fun s => ⟨a, s, rfl, h, rfl, rfl⟩

theorem handler {h : Handler} :
    Follows position [] (Pure.pure (.handler h) : Assembly Resolved) (· ≠ .hidden) :=
  .pure nofun

theorem context : Follows position [] Assembly.context fun _ => True :=
  .quiet fun s => ⟨s.context, s, rfl, trivial, rfl, rfl⟩

theorem add (g : World → Nat × World) : Follows position [] (add g) fun _ => True :=
  .quiet fun _ => ⟨_, _, rfl, trivial, rfl, rfl⟩

/-- An action that comes down to one check. -/
theorem ofCheck {check : Check} (h : ∀ s,
    (∃ a t, check.run s.context.registry s.context.registered = .ok t.context.registered ∧
      x.Gives s a t ∧ Q a ∧ t.context.registry = s.context.registry) ∨
    ∃ e, check.run s.context.registry s.context.registered = .error e ∧ (x s).1 = .error e) :
    Follows position [⟨[], check⟩] x Q where
  gives s r hr := by
    rw [passAll] at hr
    rcases h s with ⟨a, t, hrun, ha, hq, hregistry⟩ | ⟨e, hrun, -⟩
    · rw [hrun] at hr
      exact ⟨a, t, ha, hq, Except.ok.inj hr, hregistry⟩
    · rw [hrun] at hr
      cases hr
  fails s site e he := by
    rw [passAll] at he
    rcases h s with ⟨a, t, hrun, -⟩ | ⟨e', hrun, hx⟩
    · rw [hrun] at he
      cases he
    · rw [hrun] at he
      obtain ⟨rfl, rfl⟩ := Prod.mk.inj (Except.error.inj he)
      exact hx

theorem bind (hx : Follows position sites x P) (hf : ∀ a, P a → Follows position more (f a) R) :
    Follows position (sites ++ more) (x >>= f) R where
  gives s r h := by
    rw [passAll_append] at h
    cases hsites : passAll s.context.registry s.context.registered sites with
    | error p =>
      rw [hsites] at h
      cases h
    | ok r' =>
      rw [hsites] at h
      obtain ⟨a, u, ha, hp, hr, hregistry⟩ := hx.gives s r' hsites
      rw [← hr, ← hregistry] at h
      obtain ⟨b, t, hb, hq, ht, hsame⟩ := (hf a hp).gives u r h
      exact ⟨b, t, gives_bind.mpr ⟨a, u, ha, hb⟩, hq, ht, hsame.trans hregistry⟩
  fails s site e h := by
    rw [passAll_append] at h
    cases hsites : passAll s.context.registry s.context.registered sites with
    | error p =>
      rw [hsites] at h
      obtain rfl : p = (site, e) := Except.error.inj h
      rw [bind_apply, hx.fails s site e hsites]
    | ok r' =>
      rw [hsites] at h
      obtain ⟨a, u, ha, hp, hr, hregistry⟩ := hx.gives s r' hsites
      rw [← hr, ← hregistry] at h
      rw [bind_apply_of_gives ha]
      exact (hf a hp).fails u site e h

theorem imp (hx : Follows position sites x P) (h : ∀ a, P a → Q a) :
    Follows position sites x Q where
  gives s r hr :=
    let ⟨a, t, ha, hp, hrest⟩ := hx.gives s r hr
    ⟨a, t, ha, h a hp, hrest⟩
  fails := hx.fails

/-- An action is followed by one that needs no checks. -/
theorem thenQuiet (hx : Follows position sites x P) (hf : ∀ a, P a → Follows position [] (f a) R) :
    Follows position sites (x >>= f) R := by
  simpa using hx.bind hf

/-- The check of a node that can't go wrong needs no action. -/
theorem skip {n : Node} (hn : ∀ registry r, n.check registry r = .ok r)
    (hx : Follows position sites x Q) : Follows position (⟨[], .node n⟩ :: sites) x Q := by
  have hp (registry : Registry) (r : Registered) :
      passAll registry r (⟨[], .node n⟩ :: sites) = passAll registry r sites := by
    rw [passAll, Check.run_node, hn]
  exact ⟨fun s r h => hx.gives s r (hp _ _ ▸ h), fun s site e h => hx.fails s site e (hp _ _ ▸ h)⟩

/-- What is done at an entry of a router: errors carry the URI of the entry, unless they carry one
already. -/
theorem located {key : String} (hx : Follows (position ++ [key]) sites x Q) :
    Follows position (sites.map (CheckSite.below key))
      (located (uriAt (position ++ [key])) x) Q where
  gives s r h := by
    rw [passAll_below] at h
    cases hsites : passAll s.context.registry s.context.registered sites with
    | error p =>
      rw [hsites] at h
      cases h
    | ok r' =>
      rw [hsites] at h
      obtain rfl : r' = r := Except.ok.inj h
      obtain ⟨a, t, ha, hrest⟩ := hx.gives s r' hsites
      exact ⟨a, t, gives_located.mpr ha, hrest⟩
  fails s site e h := by
    rw [passAll_below] at h
    cases hsites : passAll s.context.registry s.context.registered sites with
    | ok r' =>
      rw [hsites] at h
      cases h
    | error p =>
      obtain ⟨inner, e'⟩ := p
      rw [hsites] at h
      obtain ⟨rfl, rfl⟩ := Prod.mk.inj (Except.error.inj h)
      have hfail := hx.fails s inner e' hsites
      have hblame : (inner.below key).blame position e' =
          .route (uriAt (position ++ key :: inner.position)) e' := if_neg (List.cons_ne_nil _ _)
      rw [hblame]
      unfold Assembly.located
      generalize x s = p at hfail
      obtain ⟨result, u⟩ := p
      dsimp only at hfail
      subst hfail
      by_cases hnil : inner.position = []
      · -- the check is at the entry itself, so it's the entry's URI that is put in front
        obtain ⟨_, _, r', -, -, hrun⟩ := passAll_eq_error_iff.mp hsites
        have hroute := Check.isRoute_of_run hrun
        rw [CheckSite.blame, if_pos hnil, hnil]
        cases e' with
        | route _ _ => cases hroute
        | _ => rfl
      · rw [CheckSite.blame, if_neg hnil, List.append_assoc]
        rfl

theorem withTtl (hx : Follows position sites x Q) (ttl : Option Duration) :
    Follows position sites (withTtl ttl x) Q := by
  cases ttl with
  | none => exact hx
  | some ttl =>
    refine ⟨fun s r h => ?_, fun s => hx.fails { s with context.chainTtl := some ttl }⟩
    obtain ⟨a, t, ha, hq, hr, hregistry⟩ := hx.gives { s with context.chainTtl := some ttl } r h
    exact ⟨a, _, gives_withTtl.mpr ⟨t, ha, rfl⟩, hq, hr, hregistry⟩

end Follows

/-! The actions that nodes are resolved by. -/

theorem follows_chainOf (ttl : Duration) (handlers : List Handler) :
    Follows position [] (chainOf ttl handlers) fun _ => True := by
  unfold chainOf
  split
  · exact .pure trivial
  · exact .pure trivial
  · exact (Follows.add _).thenQuiet fun _ _ => .pure trivial

theorem follows_compressed (isCompressed : Bool) (handler : Handler) :
    Follows position [] (compressed isCompressed handler) fun _ => True := by
  unfold compressed
  split
  · exact Follows.context.thenQuiet fun _ _ => .pure trivial
  · exact .pure trivial

theorem follows_resolveStatic (node : StaticNode) :
    Follows position [] (resolveStatic node) (· ≠ .hidden) := by
  refine Follows.context.thenQuiet fun c _ => ?_
  have hroots : Follows position [] (staticRoots node) fun _ => True :=
    .quiet fun s => ⟨_, s, rfl, trivial, rfl, rfl⟩
  refine hroots.thenQuiet fun roots _ => (follows_chainOf _ roots).thenQuiet fun h _ => ?_
  exact (follows_compressed _ h).thenQuiet fun _ _ => .handler

theorem follows_registerManual (node : ManualNode) :
    Follows position [⟨[], .node (.manual node)⟩] (registerManual node) fun _ => True := by
  refine .ofCheck fun s => ?_
  unfold registerManual Gives
  rw [context_bind_apply]
  simp only [Check.run_node, Node.check, Context.registered]
  cases hm : s.context.manual with
  | none => exact .inl ⟨_, _, rfl, rfl, trivial, rfl⟩
  | some first =>
    simp only [Option.map_some]
    split
    · exact .inl ⟨_, s, by rw [hm]; rfl, rfl, trivial, rfl⟩
    · exact .inr ⟨_, rfl, rfl⟩

theorem follows_registerTemplates (node : TemplatesNode) :
    Follows position [⟨[], .node (.templates node)⟩] (registerTemplates node) fun _ => True := by
  refine .ofCheck fun s => ?_
  unfold registerTemplates Gives
  rw [context_bind_apply]
  simp only [Check.run_node, Node.check, Context.registered]
  cases ht : s.context.templates with
  | none => exact .inl ⟨_, _, rfl, rfl, trivial, rfl⟩
  | some first =>
    simp only [Option.map_some]
    split
    · exact .inl ⟨_, s, by rw [ht]; rfl, rfl, trivial, rfl⟩
    · exact .inr ⟨_, rfl, rfl⟩

theorem follows_resolveDispatch (node : DispatchNode) :
    Follows position [⟨[], .node (.dispatch node)⟩] (resolveDispatch node) (· ≠ .hidden) :=
  .ofCheck fun _ => .inl ⟨_, _, rfl, rfl, nofun, rfl⟩

theorem follows_resolveCapture (node : CaptureNode) :
    Follows position [] (resolveCapture node) (· ≠ .hidden) := by
  have hrest (uri : String) : Follows position [] (do return Resolved.handler (.capture
      (.ofNode node uri) (← context).application) : Assembly Resolved) (· ≠ .hidden) :=
    Follows.context.thenQuiet fun c _ => .handler
  have hhide (uri : String) : Follows position [] (hide uri) fun _ => True :=
    .quiet fun _ => ⟨_, _, rfl, trivial, rfl, rfl⟩
  unfold resolveCapture
  dsimp only
  split
  · exact (hhide _).thenQuiet fun _ _ => hrest _
  · exact hrest _

theorem follows_resolveRedirect (node : RedirectNode) :
    Follows position [] (resolveRedirect node) (· ≠ .hidden) := by
  unfold resolveRedirect
  split
  · exact .handler
  · exact Follows.context.thenQuiet fun _ _ => .handler

theorem follows_filterOf (document : String) :
    Follows position [] (filterOf document) fun _ => True :=
  Follows.context.thenQuiet fun _ _ => .pure trivial

theorem follows_compilerOf (pipeline : Pipeline) (node : AssetNode Descriptor) :
    Follows position [⟨[], .node (.assets pipeline node)⟩] (compilerOf pipeline)
      fun _ => True := by
  refine .ofCheck fun s => ?_
  unfold compilerOf Gives
  simp only [Check.run_node, Node.check]
  cases hc : pipeline.isCompiled with
  | false => exact .inl ⟨none, s, rfl, rfl, trivial, rfl⟩
  | true =>
    rw [if_pos rfl, context_bind_apply]
    cases hr : s.context.registry.compiler? pipeline.source with
    | none => exact .inr ⟨_, rfl, rfl⟩
    | some compiler => exact .inl ⟨some compiler, s, rfl, rfl, trivial, rfl⟩

theorem follows_assetsOf {δ : Type} (pipeline : Pipeline) (compiler : Option Compiler)
    (node : AssetNode δ) :
    Follows position [] (assetsOf pipeline compiler node) fun _ => True :=
  Follows.context.thenQuiet fun _ _ => (Follows.add _).thenQuiet fun _ _ => .pure trivial

theorem follows_routeOf (key : String) :
    Follows position [⟨[], .key key⟩] (routeOf (clean key))
      fun route => Route.parse (clean key) = .ok route := by
  refine .ofCheck fun s => ?_
  unfold routeOf Gives Check.run
  dsimp only
  cases hr : Route.parse (clean key) with
  | ok route => exact .inl ⟨route, s, rfl, rfl, rfl, rfl⟩
  | error e => exact .inr ⟨_, rfl, rfl⟩

/-- What a descriptor is resolved into is attached, unless it's hidden. -/
theorem follows_attachResolved {key : String} {route : Route} {d : Descriptor} {r : Resolved}
    (hroute : Route.parse (clean key) = .ok route) (hr : r = .hidden ↔ d = .hidden)
    (router : Router × List Handler) :
    Follows position (d.attachSites key) (attachResolved route router r) fun _ => True := by
  cases r with
  | hidden =>
    rw [hr.mp rfl]
    exact .pure trivial
  | handler handler =>
    have hsites : d.attachSites key = [⟨[], .matcher key⟩] := by
      cases d with
      | hidden => exact absurd (hr.mpr rfl) nofun
      | _ => rfl
    rw [hsites]
    refine .ofCheck fun s => ?_
    unfold attachResolved Router.attach Gives Check.run
    simp only [hroute, Except.toOption, Option.map_some]
    cases route.matcher with
    | ok matcher => exact .inl ⟨_, s, rfl, rfl, trivial, rfl⟩
    | error e => exact .inr ⟨_, rfl, rfl⟩

theorem follows_requireMode (node : RouterNode Descriptor) :
    Follows position [⟨[], .node (.router node)⟩] (requireMode node.routingMode)
      fun _ => True := by
  refine .ofCheck fun s => ?_
  unfold requireMode Gives
  simp only [Check.run_node, Node.check]
  by_cases hm : node.routingMode = .custom
  · rw [if_pos hm, if_pos hm]
    exact .inr ⟨_, rfl, rfl⟩
  · rw [if_neg hm, if_neg hm]
    exact .inl ⟨(), s, rfl, rfl, trivial, rfl⟩

end Assembly

open Assembly

variable {prebuilt : ResolvePrebuilt}

mutual

/-- Resolving a descriptor comes down to its checks. -/
theorem Descriptor.follows_resolve : (d : Descriptor) → ∀ {position}, AllCatalogue d.sites →
    Follows position d.sites (d.resolve prebuilt (uriAt position))
      fun r => r = .hidden ↔ d = .hidden
  | .hidden, _, _ => by
    rw [Descriptor.resolve, Descriptor.sites]
    exact .pure (iff_of_true rfl rfl)
  | .chain nodes, _, h => by
    rw [Descriptor.sites] at h ⊢
    rw [Descriptor.resolve]
    refine Follows.context.bind fun c _ => (follows_resolveAll nodes h).thenQuiet fun hs _ => ?_
    exact (follows_chainOf _ hs).thenQuiet fun _ _ => .pure (iff_of_false nofun nofun)
  | .node n, _, h => by
    rw [Descriptor.sites] at h ⊢
    rw [Descriptor.resolve]
    exact (n.follows_resolve h.tail).imp fun _ hr => iff_of_false hr nofun
  | .prebuilt name, _, h => by
    rw [Descriptor.sites] at h
    exact absurd (h _ (List.mem_singleton_self _)) nofun
  termination_by structural d => d

theorem follows_resolveAll : (nodes : List Descriptor) → ∀ {position},
    AllCatalogue (sitesAll nodes) →
      Follows position (sitesAll nodes) (resolveAll prebuilt nodes (uriAt position)) fun _ => True
  | [], _, _ => by
    rw [resolveAll, sitesAll]
    exact .pure trivial
  | d :: rest, _, h => by
    rw [sitesAll] at h ⊢
    obtain ⟨hd, hrest⟩ := allCatalogue_append.mp h
    rw [resolveAll]
    refine (d.follows_resolve hd).bind fun r _ => ?_
    cases r with
    | hidden => exact follows_resolveAll rest hrest
    | handler handler =>
      exact (follows_resolveAll rest hrest).thenQuiet fun _ _ => .pure trivial
  termination_by structural l => l

theorem follows_resolveRoutes : (entries : List (String × Descriptor)) → ∀ {position},
    AllCatalogue (sitesOf entries) → (router : Router × List Handler) →
      Follows position (sitesOf entries) (resolveRoutes prebuilt entries (uriAt position) router)
        fun _ => True
  | [], _, _, router => by
    rw [resolveRoutes, sitesOf]
    exact .pure trivial
  | (key, d) :: rest, _, h, router => by
    rw [sitesOf] at h ⊢
    obtain ⟨hentry, hrest⟩ := allCatalogue_append.mp h
    have hd := (allCatalogue_append.mp (allCatalogue_below.mp hentry).tail).1
    rw [resolveRoutes, below_uriAt, List.cons_append, ← List.singleton_append, List.map_append,
      List.map_append, List.append_assoc, List.append_assoc]
    refine (follows_routeOf key).located.bind fun route hroute => ?_
    refine (d.follows_resolve hd).located.bind fun r hr => ?_
    refine (follows_attachResolved hroute hr router).located.bind fun router _ => ?_
    exact follows_resolveRoutes rest hrest router
  termination_by structural l => l

theorem follows_resolveOrdered : (routes : Ordered Descriptor) → ∀ {position},
    AllCatalogue (sitesOrdered routes) → (mode : RoutingMode) → (ttl : Option Duration) →
      Follows position (⟨[], .node (.router ⟨routes, mode, ttl⟩)⟩ :: sitesOrdered routes)
        (resolveOrdered prebuilt routes (uriAt position) mode ttl) fun _ => True
  | ⟨entries⟩, _, h, mode, ttl => by
    rw [sitesOrdered] at h
    rw [resolveOrdered, sitesOrdered, ← List.singleton_append]
    refine (follows_requireMode ⟨⟨entries⟩, mode, ttl⟩).bind fun _ _ => ?_
    refine (Follows.add _).bind fun place _ => ?_
    exact (follows_resolveRoutes entries h ({ mode, place }, [])).withTtl ttl
  termination_by structural routes => routes

theorem Node.follows_resolve : (n : Node) → ∀ {position}, AllCatalogue n.inner →
    Follows position (⟨[], .node n⟩ :: n.inner) (n.resolve prebuilt (uriAt position))
      (· ≠ .hidden)
  | .static node, _, _ => by
    rw [Node.resolve, Node.inner]
    exact (follows_resolveStatic node).skip fun _ _ => rfl
  | .manual node, _, _ => by
    rw [Node.resolve, Node.inner]
    exact (follows_registerManual node).thenQuiet fun _ _ => .handler
  | .templates node, _, _ => by
    rw [Node.resolve, Node.inner]
    exact (follows_registerTemplates node).thenQuiet fun _ _ => .handler
  | .dispatch node, _, _ => by
    rw [Node.resolve, Node.inner]
    exact follows_resolveDispatch node
  | .capture node, _, _ => by
    rw [Node.resolve, Node.inner]
    exact (follows_resolveCapture node).skip fun _ _ => rfl
  | .redirect node, _, _ => by
    rw [Node.resolve, Node.inner]
    exact (follows_resolveRedirect node).skip fun _ _ => rfl
  | .addSlash, _, _ => by
    rw [Node.resolve, Node.inner]
    exact (Follows.handler).skip fun _ _ => rfl
  | .router ⟨routes, mode, ttl⟩, _, h => by
    rw [Node.inner] at h ⊢
    rw [Node.resolve]
    exact (follows_resolveOrdered routes h mode ttl).thenQuiet fun _ _ => .handler
  | .chain ⟨nodes, ttl⟩, _, h => by
    rw [Node.inner] at h ⊢
    rw [Node.resolve]
    refine Follows.skip (fun _ _ => rfl) ?_
    refine Follows.context.bind fun c _ => (follows_resolveAll nodes h).thenQuiet fun hs _ => ?_
    exact (follows_chainOf _ hs).thenQuiet fun _ _ => .handler
  | .filter ⟨library, next⟩, _, h => by
    rw [Node.inner] at h ⊢
    rw [Node.resolve]
    refine ((next.follows_resolve h).thenQuiet fun _ _ => ?_).skip fun _ _ => rfl
    exact (follows_filterOf library).thenQuiet fun _ _ => .handler
  | .injector ⟨locals, next⟩, _, h => by
    rw [Node.inner] at h ⊢
    rw [Node.resolve]
    exact ((next.follows_resolve h).thenQuiet fun _ _ => .handler).skip fun _ _ => rfl
  | .cacheControl ⟨mediaTypes, default, next⟩, _, h => by
    rw [Node.inner] at h ⊢
    rw [Node.resolve]
    exact ((next.follows_resolve h).thenQuiet fun _ _ => .handler).skip fun _ _ => rfl
  | .cors ⟨allowOrigin, allowMethods, allowHeaders, maxAge, next⟩, _, h => by
    rw [Node.inner] at h ⊢
    rw [Node.resolve]
    exact ((next.follows_resolve h).thenQuiet fun _ _ => .handler).skip fun _ _ => rfl
  | .basicAuth ⟨credentials, realm, next⟩, _, h => by
    rw [Node.inner] at h ⊢
    rw [Node.resolve]
    exact ((next.follows_resolve h).thenQuiet fun _ _ => .handler).skip fun _ _ => rfl
  | .status node, _, _ => by
    rw [Node.resolve, Node.inner]
    refine .ofCheck fun s => ?_
    unfold Gives
    simp only [Check.run_node, Node.check]
    cases Status.ofCode? node.code with
    | some status => exact .inl ⟨_, s, rfl, rfl, nofun, rfl⟩
    | none => exact .inr ⟨_, rfl, rfl⟩
  | .resource node, _, _ => by
    rw [Node.resolve, Node.inner]
    refine .ofCheck fun s => ?_
    unfold Gives
    rw [context_bind_apply]
    simp only [Check.run_node, Node.check]
    cases s.context.registry.resource? node.name with
    | some resource => exact .inl ⟨_, s, rfl, rfl, nofun, rfl⟩
    | none => exact .inr ⟨_, rfl, rfl⟩
  | .assets pipeline ⟨roots, next, minify⟩, _, h => by
    rw [Node.inner] at h ⊢
    rw [Node.resolve, ← List.singleton_append]
    refine (follows_compilerOf pipeline ⟨roots, next, minify⟩).bind fun compiler _ => ?_
    refine (next.follows_resolve h).thenQuiet fun _ _ => ?_
    exact (follows_assetsOf pipeline compiler _).thenQuiet fun _ _ => .handler
  termination_by structural n => n

end

namespace Assembly

/-- Resolving a route table comes down to the checks of its entries, since that of the router can't
fail. -/
theorem follows_table {table : Ordered Descriptor} (hc : AllCatalogue (sitesOrdered table))
    (prebuilt : ResolvePrebuilt) : Follows [] (sitesOrdered table)
      (resolveOrdered prebuilt table "/" .best none) fun _ => True :=
  have h := @follows_resolveOrdered prebuilt table [] hc .best none
  ⟨h.gives, h.fails⟩

/-- A route table of catalogue nodes can't be resolved exactly if one of its checks fails. The error
is that of the first one, at the URI of the position it's at. -/
theorem error_located {table : Ordered Descriptor} (hc : AllCatalogue (sitesOrdered table))
    (prebuilt : ResolvePrebuilt) (s : State) (e : Error) :
    (resolveOrdered prebuilt table "/" .best none s).1 = .error e ↔
      ∃ before site after r source, sitesOrdered table = before ++ site :: after ∧
        passAll s.context.registry s.context.registered before = .ok r ∧
        site.check.run s.context.registry r = .error source ∧ source.isRoute = false ∧
        e = .route (uriAt site.position) source := by
  have hf := follows_table hc prebuilt
  have hfails (site : CheckSite) (source : Error)
      (h : passAll s.context.registry s.context.registered (sitesOrdered table) =
        .error (site, source)) :
      (resolveOrdered prebuilt table "/" .best none s).1 =
        .error (.route (uriAt site.position) source) := by
    have hn : site.position ≠ [] := by
      obtain ⟨before, after, _, hsites, -⟩ := passAll_eq_error_iff.mp h
      obtain ⟨entries⟩ := table
      rw [sitesOrdered] at hsites
      exact position_ne_nil (hsites ▸ List.mem_append_right _ List.mem_cons_self)
    rw [hf.fails s site source h, CheckSite.blame, if_neg hn, List.nil_append]
  constructor
  · intro he
    cases hp : passAll s.context.registry s.context.registered (sitesOrdered table) with
    | ok r =>
      obtain ⟨a, t, ha, -⟩ := hf.gives s r hp
      rw [show resolveOrdered prebuilt table "/" .best none s = (.ok a, t) from ha] at he
      cases he
    | error p =>
      obtain ⟨site, source⟩ := p
      rw [hfails site source hp] at he
      obtain ⟨before, after, r, hsites, hbefore, hrun⟩ := passAll_eq_error_iff.mp hp
      exact ⟨before, site, after, r, source, hsites, hbefore, hrun, Check.isRoute_of_run hrun,
        (Except.error.inj he).symm⟩
  · rintro ⟨before, site, after, r, source, hsites, hbefore, hrun, -, rfl⟩
    exact hfails site source (passAll_eq_error_iff.mpr ⟨before, after, r, hsites, hbefore, hrun⟩)

/-- A table with a code that stands for no status inside of an array, a router and a wrapper. -/
def failingTable : Ordered Descriptor := ⟨[
  ("/a", .node (.status {})),
  ("/docs*", .chain [.hidden, .node (.router { routes := ⟨[
    ("api/*", .node (.cors { next := .node (.status { code := 299 }) }))]⟩ })])]⟩

theorem error_located_failingTable : AllCatalogue (sitesOrdered failingTable) ∧
    (resolveOrdered (resolvePrebuilt 1) failingTable "/" .best none (freshState {})).1 =
      .error (.route "/docs/api/*" (.status 299)) := by
  have hc : AllCatalogue (sitesOrdered failingTable) := by decide +kernel
  have huri : uriAt ["/docs*", "api/*"] = "/docs/api/*" := by decide +kernel
  have hn : (passAll (freshState {}).context.registry (freshState {}).context.registered
      ((sitesOrdered failingTable).take 7)).toOption.isSome = true := by decide +kernel
  obtain ⟨r, hr⟩ := Option.isSome_iff_exists.mp hn
  exact ⟨hc, (error_located hc (resolvePrebuilt 1) (freshState {}) _).mpr
    ⟨(sitesOrdered failingTable).take 7, ⟨["/docs*", "api/*"], .node (.status { code := 299 })⟩,
      (sitesOrdered failingTable).drop 8, r, .status 299, rfl, eq_ok_of_toOption hr, rfl, rfl,
      by rw [huri]⟩⟩

end Assembly

end RequestRouting
