import RequestRouting.Proofs.Assembly.Hidden
import RequestRouting.Proofs.Routing.Hidden

/-!
# The root router of an application

The root router selects the best route. Its hidden routes are those of the URIs that the
configuration hides, of hidden entries of the route table, and of the mount of the manual resource.
-/

namespace RequestRouting

/-- The URIs a configuration hides: the targets of marked captures, and marked error pages. -/
def Config.hiddenTargets (config : Config) : List String :=
  RequestRouting.hiddenTargets (capturesOrdered config.routes) ++
    config.errors.entries.filterMap fun (_, uri) => Text.dropTail? "!" uri

namespace Assembly

theorem hides_createPrebuilt {resolve : ResolvePrebuilt}
    (hp : ∀ name uri, (resolve name uri).Hides []) (uri : String) (node : Prebuilt) :
    (createPrebuilt resolve uri node).Hides [] := by
  cases node with
  | closure response =>
    exact hides_context.andThen fun _ => (hides_add _).andThen fun _ => hides_pure _
  | family handler steps =>
    simp only [createPrebuilt]
    generalize (handler.map Resolved.handler).getD .hidden = start
    induction steps generalizing start with
    | nil => exact hides_pure _
    | cons step steps ih =>
      rw [List.foldlM_cons]
      exact (hp _ _).andThen fun resolved => ih resolved

/-- Prebuilt nodes hide nothing. -/
theorem hides_resolvePrebuilt (fuel : Nat) (name uri : String) :
    (resolvePrebuilt fuel name uri).Hides [] := by
  induction fuel generalizing name uri with
  | zero => exact hides_throw _
  | succ fuel ih =>
    refine hides_context.andThen fun c => ?_
    split
    · exact hides_pure _
    · exact (hides_createPrebuilt ih _ _).guarded _ _

theorem hides_documentRoot (root : Option String) : (documentRoot root).Hides [] := by
  refine hides_get.andThen fun s => ?_
  dsimp only
  split
  · exact hides_throw _
  · exact hides_pure _

theorem hides_buildManual (node : ManualNode) : (buildManual node).Hides [] :=
  (hides_documentRoot _).andThen fun _ => hides_context.andThen fun _ =>
    (hides_add _).andThen fun _ => hides_compressed _ _

theorem hides_buildTemplates (node : TemplatesNode) : (buildTemplates node).Hides [] :=
  (hides_documentRoot _).andThen fun _ => hides_context.andThen fun _ =>
    (hides_add _).andThen fun _ => hides_compressed _ _

theorem hides_publishTargets (internal : String) : (publishTargets internal).Hides [] := by
  intro s u t h
  simp only [publishTargets, gives_bind, gives_context, gives_modify] at h
  obtain ⟨c, v, ⟨rfl, rfl⟩, rfl⟩ := h
  simp

theorem hides_finishManual (c : Context) : (finishManual c).Hides [] := by
  unfold finishManual
  cases c.manual with
  | none =>
    dsimp only
    split
    · exact hides_pure _
    · exact hides_throw _
  | some manual =>
    exact (hides_publishTargets _).andThen fun _ => (hides_buildManual _).andThen fun _ =>
      (hides_bind _ _).andThen fun _ => hides_pure _

/-- Building the manual and the template resource hides nothing. -/
theorem hides_finish : finish.Hides [] := by
  rw [finish_eq]
  refine hides_context.andThen fun c => ?_
  cases c.templates with
  | none => exact hides_finishManual c
  | some templates =>
    exact (hides_buildTemplates _).andThen fun _ => (hides_bind _ _).andThen fun _ =>
      hides_finishManual c

theorem hides_mountManual (router : Router × List Handler) (mount : Option (String × Nat)) :
    (mountManual router mount).Hides [] := by
  cases mount with
  | none => exact hides_pure _
  | some mount =>
    exact (hides_routeOf _).andThen fun _ => (hides_attachResolved _ _ _).andThen fun _ =>
      hides_pure _

theorem hides_errorPages (entries : List (Nat × String)) : (errorPages entries).Hides
    (entries.filterMap fun (_, uri) => Text.dropTail? "!" uri) := by
  induction entries with
  | nil => exact hides_pure _
  | cons entry rest ih =>
    obtain ⟨code, uri⟩ := entry
    have hrest (page : Capture) :
        (do return (← errorPages rest).insert code page : Assembly (Keyed Nat Capture)).Hides
          (rest.filterMap fun (_, uri) => Text.dropTail? "!" uri) :=
      ih.thenNothing fun _ => hides_pure _
    simp only [errorPages, List.filterMap_cons]
    split
    · exact hides_throw_bind _ _
    · cases Text.dropTail? "!" uri with
      | none => exact hrest _
      | some target => exact (hides_hide target).bind fun _ => hrest _

/-- A node always has a handler. -/
theorem node_ne_hidden {prebuilt : ResolvePrebuilt} (n : Node) {uri : String} {s t : State} :
    ¬(n.resolve prebuilt uri).Gives s .hidden t := by
  intro h
  cases n with
  | status node =>
    rw [Node.resolve] at h
    split at h <;> simp at h
  | resource node =>
    rw [Node.resolve] at h
    simp only [gives_bind] at h
    obtain ⟨c, u, -, h⟩ := h
    split at h <;> simp at h
  | redirect node =>
    rw [Node.resolve, resolveRedirect] at h
    split at h <;> simp at h
  | capture node =>
    rw [Node.resolve, resolveCapture] at h
    dsimp only at h
    split at h <;> simp at h
  | static node => simp [Node.resolve, resolveStatic] at h
  | dispatch node => simp [Node.resolve, resolveDispatch] at h
  | router node => obtain ⟨routes, mode, ttl⟩ := node; simp [Node.resolve] at h
  | chain node => obtain ⟨nodes, ttl⟩ := node; simp [Node.resolve] at h
  | filter node => obtain ⟨library, next⟩ := node; simp [Node.resolve] at h
  | injector node => obtain ⟨locals, next⟩ := node; simp [Node.resolve] at h
  | cacheControl node => obtain ⟨types, default, next⟩ := node; simp [Node.resolve] at h
  | cors node => obtain ⟨origin, methods, headers, maxAge, next⟩ := node; simp [Node.resolve] at h
  | basicAuth node => obtain ⟨credentials, realm, next⟩ := node; simp [Node.resolve] at h
  | assets pipeline node => obtain ⟨roots, next, minify⟩ := node; simp [Node.resolve] at h
  | manual node => simp [Node.resolve] at h
  | templates node => simp [Node.resolve] at h
  | addSlash => simp [Node.resolve] at h

/-- Only hidden entries, and prebuilt nodes that turn out to be hidden, have no handler. -/
theorem eq_of_gives_hidden {prebuilt : ResolvePrebuilt} {d : Descriptor} {uri : String}
    {s t : State} (h : (d.resolve prebuilt uri).Gives s .hidden t) :
    d = .hidden ∨ ∃ name, d = .prebuilt name := by
  cases d with
  | hidden => exact Or.inl rfl
  | prebuilt name => exact Or.inr ⟨name, rfl⟩
  | chain nodes =>
    simp [Descriptor.resolve] at h
  | node n =>
    rw [Descriptor.resolve] at h
    exact absurd h (node_ne_hidden n)

/-- What a route is hidden for. -/
inductive Reason (config : Config) (manual : Option String) : Route → Prop where
  /-- It's the target of a capture or an error page with a mark. -/
  | target {uri : String} {route : Route} (hu : uri ∈ config.hiddenTargets)
      (hr : Route.parse uri = .ok route) : Reason config manual route
  /-- It's an entry of the route table without a handler. -/
  | entry {key : String} {d : Descriptor} {route : Route}
      (he : (key, d) ∈ config.routes.entries) (hd : d = .hidden ∨ ∃ name, d = .prebuilt name)
      (hr : Route.parse (clean key) = .ok route) : Reason config manual route
  /-- It's where the manual resource is mounted. -/
  | manual {internal : String} {route : Route} (hm : manual = some internal)
      (hr : Route.parse (internal ++ "*") = .ok route) : Reason config manual route

theorem gives_routeOf {text : String} {s t : State} {route : Route} :
    (routeOf text).Gives s route t ↔ Route.parse text = .ok route ∧ s = t := by
  unfold routeOf
  cases Route.parse text <;> simp

/-- What holds of the root router of an application from its first route on. -/
structure IsRoot (config : Config) (manual : Option String) (r : Router) : Prop where
  mode : r.mode = .best
  regular : r.IsRegular
  reason : ∀ e ∈ r.hidden, Reason config manual e.route

namespace IsRoot

variable {config : Config} {manual : Option String} {prebuilt : ResolvePrebuilt}
  {r r' : Router} {route : Route} {s t : State}

theorem hide (h : IsRoot config manual r) (hr : Reason config manual route) :
    IsRoot config manual (r.hide route) := by
  refine ⟨(r.mode_hide route).trans h.mode, h.regular.hide route, fun e he => ?_⟩
  rcases Router.mem_hidden_hide he with he | rfl
  · exact h.reason e he
  · exact hr

theorem attachResolved (h : IsRoot config manual r) {handlers : List Handler}
    {resolved : Resolved} {p : Router × List Handler}
    (hr : resolved = .hidden → Reason config manual route)
    (hp : (Assembly.attachResolved route (r, handlers) resolved).Gives s p t) :
    IsRoot config manual p.1 := by
  cases resolved with
  | hidden =>
    obtain ⟨rfl, -⟩ := gives_pure.mp hp
    exact h.hide (hr rfl)
  | handler handler =>
    unfold Assembly.attachResolved at hp
    cases ha : r.attach route with
    | error e => simp [ha] at hp
    | ok r' =>
      simp only [ha, gives_pure] at hp
      obtain ⟨rfl, -⟩ := hp
      obtain ⟨e, rfl⟩ := Router.eq_of_attach ha
      exact ⟨h.mode, h.regular, h.reason⟩

theorem resolveRoutes {l : List (String × Descriptor)} {uri : String}
    {p q : Router × List Handler} (hl : ∀ entry ∈ l, entry ∈ config.routes.entries)
    (h : IsRoot config manual p.1)
    (hq : (RequestRouting.resolveRoutes prebuilt l uri p).Gives s q t) :
    IsRoot config manual q.1 := by
  induction l generalizing p s with
  | nil =>
    rw [RequestRouting.resolveRoutes, gives_pure] at hq
    rwa [← hq.1]
  | cons entry rest ih =>
    obtain ⟨key, d⟩ := entry
    simp only [RequestRouting.resolveRoutes, gives_bind, gives_located, gives_routeOf] at hq
    obtain ⟨route, s₁, ⟨hroute, rfl⟩, resolved, s₂, hd, p', s₃, hattach, hrest⟩ := hq
    refine ih (fun entry he => hl entry (List.mem_cons_of_mem _ he)) ?_ hrest
    refine h.attachResolved (fun he => ?_) hattach
    subst he
    exact .entry (hl _ List.mem_cons_self) (eq_of_gives_hidden hd) hroute

theorem hideRoutes {uris : List String} (hu : ∀ uri ∈ uris, uri ∈ config.hiddenTargets)
    (h : IsRoot config manual r) (hr : (Assembly.hideRoutes r uris).Gives s r' t) :
    IsRoot config manual r' ∧ s = t ∧ (∀ path, r.Conceals path → r'.Conceals path) ∧
      ∀ uri ∈ uris, ∃ route, Route.parse uri = .ok route ∧
        ∀ path, route.Covers path → r'.Conceals path := by
  induction uris generalizing r s with
  | nil =>
    simp only [Assembly.hideRoutes, List.foldlM_nil, gives_pure] at hr
    obtain ⟨rfl, rfl⟩ := hr
    exact ⟨h, rfl, fun _ hc => hc, by simp⟩
  | cons uri rest ih =>
    simp only [Assembly.hideRoutes, List.foldlM_cons, gives_bind, gives_located, gives_routeOf,
      gives_pure] at hr
    obtain ⟨_, _, ⟨route, _, ⟨hroute, rfl⟩, rfl, rfl⟩, hrest⟩ := hr
    obtain ⟨hroot, hst, hkeep, huris⟩ := ih (fun u hm => hu u (List.mem_cons_of_mem _ hm))
      (h.hide (.target (hu uri List.mem_cons_self) hroute)) hrest
    refine ⟨hroot, hst, fun path hc => hkeep path (hc.hide route), fun u hm => ?_⟩
    rcases List.mem_cons.mp hm with rfl | hm
    · exact ⟨route, hroute, fun path hc => hkeep path (r.conceals_hide hc)⟩
    · exact huris u hm

theorem mountManual {mount : Option (String × Nat)} {p q : Router × List Handler}
    (hm : mount.map (·.1) = manual) (h : IsRoot config manual p.1)
    (hq : (Assembly.mountManual p mount).Gives s q t) : IsRoot config manual q.1 := by
  cases mount with
  | none =>
    simp only [Assembly.mountManual, gives_pure] at hq
    rwa [← hq.1]
  | some mount =>
    obtain ⟨internal, slot⟩ := mount
    simp only [Assembly.mountManual, gives_bind, gives_routeOf, gives_pure] at hq
    obtain ⟨route, _, ⟨hroute, rfl⟩, ⟨r, handlers⟩, _, hattach, rfl, -⟩ := hq
    have hr : IsRoot config manual r := h.attachResolved (by simp) hattach
    exact hr.hide (.manual hm.symm hroute)

end IsRoot

/-- What is hidden in the end is what the route table and the error pages hide. -/
theorem hidden_eq_hiddenTargets {config : Config} {fuel : Nat} {s s₁ s₂ s₃ s₄ : State}
    {p q : Router × List Handler} {mount : Option (String × Nat)} {pages : Keyed Nat Capture}
    (hs : s.context.hidden = [])
    (hroutes : (resolveOrdered (resolvePrebuilt fuel) config.routes "/" .best none).Gives s p s₁)
    (hfinish : finish.Gives s₁ mount s₂) (hmount : (mountManual p mount).Gives s₂ q s₃)
    (hpages : (errorPages config.errors.entries).Gives s₃ pages s₄) :
    s₄.context.hidden = config.hiddenTargets := by
  have h₁ := hides_resolveOrdered (hides_resolvePrebuilt _) _ _ _ _ _ _ _ hroutes
  have h₂ := hides_finish _ _ _ hfinish
  have h₃ := hides_mountManual _ _ _ _ _ hmount
  have h₄ := hides_errorPages _ _ _ _ hpages
  rw [h₄, h₃, h₂, h₁, hs, Config.hiddenTargets]
  simp

/-- Every application has a root router, which conceals whatever the URIs cover that the
configuration hides. -/
theorem exists_root {config : Config} {s t : State} {app : Application}
    (h : (application config).Gives s app t) (hs : s.context.hidden = []) :
    ∃ manual router handlers pages,
      app.handler = .layer .applicationRoot
        (rootHandler t.context.application (.router router handlers) pages) ∧
      IsRoot config manual router ∧ ∀ uri ∈ config.hiddenTargets, ∃ route,
        Route.parse uri = .ok route ∧ ∀ path, route.Covers path → router.Conceals path := by
  simp only [application, gives_bind, gives_context, gives_modify, gives_pure] at h
  obtain ⟨_, _, ⟨rfl, rfl⟩, ⟨r₀, handlers₀⟩, s₁, hroutes, mount, s₂, hfinish, ⟨r₁, handlers⟩, s₃,
    hmount, pages, s₄, hpages, _, _, ⟨rfl, rfl⟩, r₂, s₅, hhide, _, _, rfl, rfl, rfl⟩ := h
  have hhidden := hidden_eq_hiddenTargets hs hroutes hfinish hmount hpages
  have hroot₀ : IsRoot config (mount.map (·.1)) r₀ := by
    cases he : config.routes with
    | mk entries =>
      rw [he] at hroutes
      simp only [resolveOrdered, gives_bind, gives_add] at hroutes
      obtain ⟨_, _, -, place, _, ⟨-, rfl⟩, hroutes⟩ := hroutes
      refine IsRoot.resolveRoutes (l := entries) (p := ({ mode := .best, place }, []))
        (fun entry hm => by rwa [he]) ⟨rfl, by simp [Router.IsRegular], by simp⟩ hroutes
  have hroot₁ : IsRoot config (mount.map (·.1)) r₁ := hroot₀.mountManual rfl hmount
  rw [hhidden] at hhide
  obtain ⟨hroot, rfl, -, htargets⟩ := hroot₁.hideRoutes (fun _ hu => hu) hhide
  exact ⟨_, r₂, handlers, pages, rfl, hroot, htargets⟩

/-- The state in which an application with default settings is assembled, given the files. -/
def freshState (files : FileTree) : State where
  context := (Context.create "shop" "." {} {} {} { files }).1
  world := (Context.create "shop" "." {} {} {} { files }).2

/-- An application that is assembled in a state, and the state it's left in. -/
def assembledIn? (config : Config) (s : State) : Option (Application × State) :=
  match (application config).run s with
  | (.ok app, t) => some (app, t)
  | _ => none

theorem gives_of_assembledIn? {config : Config} {s t : State} {app : Application}
    (h : assembledIn? config s = some (app, t)) : (application config).Gives s app t := by
  unfold assembledIn? at h
  split at h
  · rename_i happ
    obtain ⟨rfl, rfl⟩ := Prod.mk.inj (Option.some.inj h)
    exact happ
  · cases h

/-- A freshly assembled application, and the state it's left in. -/
def assembled? (config : Config) (files : FileTree) : Option (Application × State) :=
  match (application config).run (freshState files) with
  | (.ok app, t) => some (app, t)
  | _ => none

theorem gives_of_assembled? {config : Config} {files : FileTree} {app : Application} {t : State}
    (h : assembled? config files = some (app, t)) :
    (application config).Gives (freshState files) app t := gives_of_assembledIn? h

/-- The answer of a freshly assembled application to a request. -/
def answerOf (config : Config) (files : FileTree) (req : Request) : Option Response :=
  (assembled? config files).bind fun (app, t) => (app.serve 2 req t.world).map (·.1)

theorem exists_of_answerOf {config : Config} {files : FileTree} {req : Request} {res : Response}
    (h : answerOf config files req = some res) : ∃ app t w,
      (application config).Gives (freshState files) app t ∧
        app.serve 2 req t.world = some (res, w) := by
  obtain ⟨⟨app, t⟩, happ, h⟩ := Option.bind_eq_some_iff.mp h
  obtain ⟨⟨res, w⟩, hres, rfl⟩ := Option.map_eq_some_iff.mp h
  exact ⟨app, t, w, gives_of_assembled? happ, hres⟩

end Assembly

end RequestRouting
