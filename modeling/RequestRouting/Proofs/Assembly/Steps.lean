import RequestRouting.Proofs.Assembly.Actions

/-!
# The steps of resolving

However deep a descriptor is nested, resolving it changes the context and the world in a few ways
only. What holds between the states before and after each of these, and is passed on from one to the
next, therefore holds between the states before and after resolving, whether that succeeds or fails.
-/

namespace RequestRouting

namespace Assembly

/-- A relation between states that no step of resolving leads out of. -/
structure IsClosed (R : State → State → Prop) : Prop where
  refl (s : State) : R s s
  trans {s t u : State} : R s t → R t u → R s u
  chain (s : State) : R s { s with world := s.world.addChain.2 }
  turn (s : State) : R s { s with world := s.world.addTurn.2 }
  checks (s : State) : R s { s with world := s.world.addChecks.2 }
  calls (s : State) : R s { s with world := s.world.addCalls.2 }
  /-- The manual resource gets a slot that is added for it. -/
  manual (s : State) (config : ManualNode) : s.context.manual = none → R s
    { context := { s.context with manual := some { config, slot := s.world.addSlot.1 } }
      world := s.world.addSlot.2 }
  templates (s : State) (config : TemplatesNode) : s.context.templates = none → R s
    { context := { s.context with templates := some { config, slot := s.world.addSlot.1 } }
      world := s.world.addSlot.2 }
  dispatch (s : State) (name? : Option String) :
    R s { s with context.dispatch := s.context.dispatch.reference name? }
  hide (s : State) (uri : String) : R s { s with context.hidden := s.context.hidden ++ [uri] }
  /-- The time span for chains is changed for the time being only. -/
  chainTtl (s t : State) (ttl : Duration) : R { s with context.chainTtl := some ttl } t →
    R s { t with context.chainTtl := s.context.chainTtl }
  /-- The prebuilt nodes being resolved are changed for the time being only. -/
  resolving (s t : State) (now : List (String × String)) :
    R { s with context.resolving := now } t →
      R s { t with context.resolving := s.context.resolving }

variable {α β : Type} {R : State → State → Prop}

/-- An action that starts by looking at the context goes on in the same state. -/
theorem context_bind_apply (f : Context → Assembly β) (s : State) :
    (context >>= f) s = f s.context s := rfl

/-- Whether an action leads from any state to a related one, be it that it succeeds or fails. -/
def Leads (R : State → State → Prop) (x : Assembly α) : Prop := ∀ s, R s (x s).2

namespace Leads

theorem gives {x : Assembly α} (hx : Leads R x) {s t : State} {a : α} (h : x.Gives s a t) :
    R s t := by
  have ht := hx s
  rwa [show x s = (.ok a, t) from h] at ht

theorem ofContext {f : Context → Assembly α} (hf : ∀ c, Leads R (f c)) :
    Leads R (context >>= f) := fun s => hf s.context s

theorem located {x : Assembly α} (hx : Leads R x) (uri : String) : Leads R (located uri x) := by
  intro s
  have hu := hx s
  unfold Assembly.located
  generalize x s = p at hu
  obtain ⟨r, u⟩ := p
  cases r with
  | ok a => exact hu
  | error e => cases e <;> exact hu

end Leads

namespace IsClosed

variable (h : IsClosed R)
include h

theorem pure (a : α) : Leads R (Pure.pure a : Assembly α) := h.refl

theorem throw (e : Error) : Leads R (MonadExcept.throw e : Assembly α) := h.refl

theorem bind {x : Assembly α} {f : α → Assembly β} (hx : Leads R x) (hf : ∀ a, Leads R (f a)) :
    Leads R (x >>= f) := by
  intro s
  have hu := hx s
  rw [bind_apply]
  cases (x s).1 with
  | error e => exact hu
  | ok a => exact h.trans hu (hf a _)

theorem withTtl {x : Assembly α} (hx : Leads R x) (ttl : Option Duration) :
    Leads R (withTtl ttl x) := by
  cases ttl with
  | none => exact hx
  | some ttl => exact fun s => h.chainTtl s _ ttl (hx _)

theorem guarded {x : Assembly Resolved} (hx : Leads R x) (name uri : String) :
    Leads R (guarded name uri x) := by
  intro s
  unfold Assembly.guarded
  split
  · exact h.refl s
  · exact h.resolving s _ _ (hx _)

theorem foldlM {items : List β} {f : α → β → Assembly α} (hf : ∀ a b, Leads R (f a b))
    (a : α) : Leads R (items.foldlM f a) := by
  induction items generalizing a with
  | nil => exact h.pure a
  | cons item rest ih =>
    rw [List.foldlM_cons]
    exact h.bind (hf a item) ih

/-! The actions that nodes are resolved by. -/

theorem registerManual (node : ManualNode) : Leads R (registerManual node) := by
  intro s
  unfold Assembly.registerManual
  rw [context_bind_apply]
  cases hm : s.context.manual with
  | none => exact h.manual s node hm
  | some existing =>
    dsimp only
    split
    · exact h.refl s
    · exact h.refl s

theorem registerTemplates (node : TemplatesNode) : Leads R (registerTemplates node) := by
  intro s
  unfold Assembly.registerTemplates
  rw [context_bind_apply]
  cases ht : s.context.templates with
  | none => exact h.templates s node ht
  | some existing =>
    dsimp only
    split
    · exact h.refl s
    · exact h.refl s

theorem chainOf (ttl : Duration) (handlers : List Handler) : Leads R (chainOf ttl handlers) := by
  unfold Assembly.chainOf
  split
  · exact h.pure _
  · exact h.pure _
  · exact h.bind (h.chain) fun _ => h.pure _

theorem compressed (isCompressed : Bool) (handler : Handler) :
    Leads R (compressed isCompressed handler) := by
  unfold Assembly.compressed
  split
  · exact .ofContext fun _ => h.pure _
  · exact h.pure _

theorem resolveStatic (node : StaticNode) : Leads R (resolveStatic node) := by
  refine .ofContext fun c => h.bind (fun s => h.refl s) fun handlers => ?_
  exact h.bind (h.chainOf _ handlers) fun handler =>
    h.bind (h.compressed _ handler) fun _ => h.pure _

theorem resolveDispatch (node : DispatchNode) : Leads R (resolveDispatch node) :=
  fun s => h.dispatch s node.dispatcher

theorem resolveCapture (node : CaptureNode) : Leads R (resolveCapture node) := by
  unfold Assembly.resolveCapture
  dsimp only
  split
  · exact h.bind (fun s => h.hide s _) fun _ => .ofContext fun _ => h.pure _
  · exact .ofContext fun _ => h.pure _

theorem resolveRedirect (node : RedirectNode) : Leads R (resolveRedirect node) := by
  unfold Assembly.resolveRedirect
  split
  · exact h.pure _
  · exact .ofContext fun _ => h.pure _

theorem compilerOf (pipeline : Pipeline) : Leads R (compilerOf pipeline) := by
  unfold Assembly.compilerOf
  split
  · refine .ofContext fun c => ?_
    split
    · exact h.pure _
    · exact h.throw _
  · exact h.pure _

theorem assetsOf {δ : Type} (pipeline : Pipeline) (compiler : Option Compiler)
    (node : AssetNode δ) : Leads R (assetsOf pipeline compiler node) :=
  .ofContext fun _ => h.bind h.checks fun _ => h.pure _

theorem attachResolved (route : Route) (router : Router × List Handler) (resolved : Resolved) :
    Leads R (attachResolved route router resolved) := by
  unfold Assembly.attachResolved
  split
  · exact h.pure _
  · split
    · exact h.pure _
    · exact h.throw _

theorem routeOf (text : String) : Leads R (routeOf text) := by
  unfold Assembly.routeOf
  split
  · exact h.pure _
  · exact h.throw _

theorem requireMode (mode : RoutingMode) : Leads R (requireMode mode) := by
  unfold Assembly.requireMode
  split
  · exact h.throw _
  · exact h.pure _

end IsClosed

end Assembly

open Assembly

variable {R : Assembly.State → Assembly.State → Prop} {prebuilt : ResolvePrebuilt}

mutual

/-- Resolving a descriptor leads to a related state, whether it succeeds or fails. -/
theorem Descriptor.leads_resolve (h : IsClosed R) (hp : ∀ name uri, Leads R (prebuilt name uri)) :
    (d : Descriptor) → (uri : String) → Leads R (d.resolve prebuilt uri)
  | .hidden, _ => by
    rw [Descriptor.resolve]
    exact h.pure _
  | .chain nodes, uri => by
    rw [Descriptor.resolve]
    refine .ofContext fun c => h.bind (leads_resolveAll h hp nodes uri) fun handlers => ?_
    exact h.bind (h.chainOf _ handlers) fun _ => h.pure _
  | .node n, uri => by
    rw [Descriptor.resolve]
    exact n.leads_resolve h hp uri
  | .prebuilt name, uri => by
    rw [Descriptor.resolve]
    exact hp name uri
  termination_by structural d => d

theorem leads_resolveAll (h : IsClosed R) (hp : ∀ name uri, Leads R (prebuilt name uri)) :
    (nodes : List Descriptor) → (uri : String) → Leads R (resolveAll prebuilt nodes uri)
  | [], _ => by
    rw [resolveAll]
    exact h.pure _
  | d :: rest, uri => by
    rw [resolveAll]
    refine h.bind (d.leads_resolve h hp uri) fun resolved => ?_
    cases resolved with
    | hidden => exact leads_resolveAll h hp rest uri
    | handler handler => exact h.bind (leads_resolveAll h hp rest uri) fun _ => h.pure _
  termination_by structural l => l

theorem leads_resolveRoutes (h : IsClosed R) (hp : ∀ name uri, Leads R (prebuilt name uri)) :
    (entries : List (String × Descriptor)) → (uri : String) → (router : Router × List Handler) →
      Leads R (resolveRoutes prebuilt entries uri router)
  | [], _, router => by
    rw [resolveRoutes]
    exact h.pure _
  | (key, d) :: rest, uri, router => by
    rw [resolveRoutes]
    refine h.bind ((h.routeOf _).located _) fun route => ?_
    refine h.bind ((d.leads_resolve h hp _).located _) fun resolved => ?_
    refine h.bind ((h.attachResolved route router resolved).located _) fun router => ?_
    exact leads_resolveRoutes h hp rest uri router
  termination_by structural l => l

theorem leads_resolveOrdered (h : IsClosed R) (hp : ∀ name uri, Leads R (prebuilt name uri)) :
    (routes : Ordered Descriptor) → (uri : String) → (mode : RoutingMode) →
      (ttl : Option Duration) → Leads R (resolveOrdered prebuilt routes uri mode ttl)
  | ⟨entries⟩, uri, mode, ttl => by
    rw [resolveOrdered]
    refine h.bind (h.requireMode mode) fun _ => h.bind h.turn fun place => ?_
    exact h.withTtl (leads_resolveRoutes h hp entries uri ({ mode, place }, [])) ttl
  termination_by structural routes => routes

theorem Node.leads_resolve (h : IsClosed R) (hp : ∀ name uri, Leads R (prebuilt name uri)) :
    (n : Node) → (uri : String) → Leads R (n.resolve prebuilt uri)
  | .static node, _ => by
    rw [Node.resolve]
    exact h.resolveStatic node
  | .manual node, _ => by
    rw [Node.resolve]
    exact h.bind (h.registerManual node) fun _ => h.pure _
  | .templates node, _ => by
    rw [Node.resolve]
    exact h.bind (h.registerTemplates node) fun _ => h.pure _
  | .dispatch node, _ => by
    rw [Node.resolve]
    exact h.resolveDispatch node
  | .capture node, _ => by
    rw [Node.resolve]
    exact h.resolveCapture node
  | .redirect node, _ => by
    rw [Node.resolve]
    exact h.resolveRedirect node
  | .addSlash, _ => by
    rw [Node.resolve]
    exact h.pure _
  | .router ⟨routes, mode, ttl⟩, uri => by
    rw [Node.resolve]
    exact h.bind (leads_resolveOrdered h hp routes uri mode ttl) fun _ => h.pure _
  | .chain ⟨nodes, ttl⟩, uri => by
    rw [Node.resolve]
    refine .ofContext fun c => h.bind (leads_resolveAll h hp nodes uri) fun handlers => ?_
    exact h.bind (h.chainOf _ handlers) fun _ => h.pure _
  | .filter ⟨library, next⟩, uri => by
    rw [Node.resolve]
    refine h.bind (next.leads_resolve h hp uri) fun next => ?_
    exact h.bind (.ofContext fun _ => h.pure _) fun _ => h.pure _
  | .injector ⟨locals, next⟩, uri => by
    rw [Node.resolve]
    exact h.bind (next.leads_resolve h hp uri) fun _ => h.pure _
  | .cacheControl ⟨mediaTypes, default, next⟩, uri => by
    rw [Node.resolve]
    exact h.bind (next.leads_resolve h hp uri) fun _ => h.pure _
  | .cors ⟨allowOrigin, allowMethods, allowHeaders, maxAge, next⟩, uri => by
    rw [Node.resolve]
    exact h.bind (next.leads_resolve h hp uri) fun _ => h.pure _
  | .basicAuth ⟨credentials, realm, next⟩, uri => by
    rw [Node.resolve]
    exact h.bind (next.leads_resolve h hp uri) fun _ => h.pure _
  | .status node, _ => by
    rw [Node.resolve]
    split
    · exact h.pure _
    · exact h.throw _
  | .resource node, _ => by
    rw [Node.resolve]
    refine .ofContext fun c => ?_
    split
    · exact h.pure _
    · exact h.throw _
  | .assets pipeline ⟨roots, next, minify⟩, uri => by
    rw [Node.resolve]
    refine h.bind (h.compilerOf pipeline) fun compiler => ?_
    refine h.bind (next.leads_resolve h hp uri) fun resolved => ?_
    exact h.bind (h.assetsOf pipeline compiler ⟨roots, next, minify⟩) fun _ => h.pure _
  termination_by structural n => n

end

namespace Assembly

/-- Resolving a prebuilt node leads to a related state, however deep it's nested. -/
theorem leads_resolvePrebuilt (h : IsClosed R) (fuel : Nat) (name uri : String) :
    Leads R (resolvePrebuilt fuel name uri) := by
  induction fuel generalizing name uri with
  | zero => exact h.throw _
  | succ fuel ih =>
    refine .ofContext fun c => ?_
    split
    · exact h.pure _
    · rename_i node _
      refine h.guarded ?_ name uri
      cases node with
      | closure response => exact .ofContext fun _ => h.bind h.calls fun _ => h.pure _
      | family handler steps =>
        exact h.foldlM (fun _ (step : String × Option String) => ih step.1 _) _

/-- Resolving a descriptor in a context leads to a related state. -/
theorem leads_resolve (h : IsClosed R) (d : Descriptor) (uri : String) :
    Leads R (resolve d uri) :=
  .ofContext fun _ => d.leads_resolve h (leads_resolvePrebuilt h _) uri

/-- Two states that differ in nothing but what is registered while descriptors are resolved: the two
resources, the dispatchers that are referred to, the URIs to hide, and what is added to the
world. -/
structure SameFrame (s t : State) : Prop where
  context : t.context =
    { s.context with
      manual := t.context.manual
      templates := t.context.templates
      dispatch := t.context.dispatch
      hidden := t.context.hidden }
  files : t.world.files = s.world.files

theorem SameFrame.trans {s t u : State} (h : SameFrame s t) (h' : SameFrame t u) :
    SameFrame s u := by
  refine ⟨?_, h'.files.trans h.files⟩
  have hu := h'.context
  rwa [h.context] at hu

theorem isClosed_sameFrame : IsClosed SameFrame where
  refl _ := ⟨rfl, rfl⟩
  trans := .trans
  chain _ := ⟨rfl, rfl⟩
  turn _ := ⟨rfl, rfl⟩
  checks _ := ⟨rfl, rfl⟩
  calls _ := ⟨rfl, rfl⟩
  manual _ _ _ := ⟨rfl, rfl⟩
  templates _ _ _ := ⟨rfl, rfl⟩
  dispatch _ _ := ⟨rfl, rfl⟩
  hide _ _ := ⟨rfl, rfl⟩
  chainTtl s _ _ h :=
    ⟨congrArg (fun c : Context => { c with chainTtl := s.context.chainTtl }) h.context, h.files⟩
  resolving s _ _ h :=
    ⟨congrArg (fun c : Context => { c with resolving := s.context.resolving }) h.context, h.files⟩

end Assembly

end RequestRouting
