import RequestRouting.Proofs.Assembly.Actions

/-!
# The URIs an application hides

Resolving a descriptor hides the targets of the marked captures below it, in order, and nothing
else, whatever is resolved along with them. So the URIs that an application hides in its root router
can be read off its configuration.
-/

namespace RequestRouting

/-- The URI a capture leads to, without the mark for hidden targets. -/
def CaptureNode.target (n : CaptureNode) : String := (Text.dropTail? "!" n.uri).getD n.uri

/-- Whether the target of a capture is to be hidden. -/
def CaptureNode.isMarked (n : CaptureNode) : Bool := n.hidden || (Text.dropTail? "!" n.uri).isSome

mutual

/-- The captures in a descriptor. -/
def Descriptor.captures : Descriptor → List CaptureNode
  | .hidden => []
  | .chain nodes => capturesAll nodes
  | .node n => n.captures
  | .prebuilt _ => []
  termination_by structural d => d

/-- The captures in several descriptors. -/
def capturesAll : List Descriptor → List CaptureNode
  | [] => []
  | d :: rest => d.captures ++ capturesAll rest
  termination_by structural l => l

/-- The captures in the descriptors of several routes. -/
def capturesOf : List (String × Descriptor) → List CaptureNode
  | [] => []
  | (_, d) :: rest => d.captures ++ capturesOf rest
  termination_by structural l => l

/-- The captures in a route table. -/
def capturesOrdered : Ordered Descriptor → List CaptureNode
  | ⟨entries⟩ => capturesOf entries
  termination_by structural routes => routes

/-- The captures in a node. -/
def Node.captures : Node → List CaptureNode
  | .static _ => []
  | .manual _ => []
  | .templates _ => []
  | .dispatch _ => []
  | .capture node => [node]
  | .redirect _ => []
  | .addSlash => []
  | .router ⟨routes, _, _⟩ => capturesOrdered routes
  | .chain ⟨nodes, _⟩ => capturesAll nodes
  | .filter ⟨_, next⟩ => next.captures
  | .injector ⟨_, next⟩ => next.captures
  | .cacheControl ⟨_, _, next⟩ => next.captures
  | .cors ⟨_, _, _, _, next⟩ => next.captures
  | .basicAuth ⟨_, _, next⟩ => next.captures
  | .status _ => []
  | .resource _ => []
  | .assets _ ⟨_, next, _⟩ => next.captures
  termination_by structural n => n

end

/-- The targets of the captures that are marked. -/
def hiddenTargets (captures : List CaptureNode) : List String :=
  (captures.filter (·.isMarked)).map (·.target)

@[simp] theorem hiddenTargets_append (a b : List CaptureNode) :
    hiddenTargets (a ++ b) = hiddenTargets a ++ hiddenTargets b := by
  simp [hiddenTargets]

namespace Assembly

variable {α β : Type} {uris more : List String}

/-- An action that succeeds has hidden the given URIs. -/
def Hides (x : Assembly α) (uris : List String) : Prop :=
  ∀ s a t, x.Gives s a t → t.context.hidden = s.context.hidden ++ uris

theorem Hides.bind {x : Assembly α} {f : α → Assembly β} (hx : x.Hides uris)
    (hf : ∀ a, (f a).Hides more) : (x >>= f).Hides (uris ++ more) := by
  intro s b t h
  obtain ⟨a, u, ha, hb⟩ := gives_bind.mp h
  rw [hf a u b t hb, hx s a u ha, List.append_assoc]

/-- What is done before something else may hide nothing. -/
theorem Hides.andThen {x : Assembly α} {f : α → Assembly β} (hx : x.Hides [])
    (hf : ∀ a, (f a).Hides uris) : (x >>= f).Hides uris := hx.bind hf

/-- What is done after something else may hide nothing. -/
theorem Hides.thenNothing {x : Assembly α} {f : α → Assembly β} (hx : x.Hides uris)
    (hf : ∀ a, (f a).Hides []) : (x >>= f).Hides uris := by
  simpa using hx.bind hf

theorem hides_pure (a : α) : (pure a : Assembly α).Hides [] := by
  intro s b t h
  obtain ⟨-, rfl⟩ := gives_pure.mp h
  simp

theorem hides_throw (e : Error) : (throw e : Assembly α).Hides uris :=
  fun _ _ _ h => absurd h gives_throw

theorem hides_throw_bind (e : Error) (f : α → Assembly β) : (throw e >>= f).Hides uris := by
  intro s b t h
  obtain ⟨a, u, ha, -⟩ := gives_bind.mp h
  exact absurd ha gives_throw

theorem hides_get : (get : Assembly State).Hides [] := by
  intro s u t h
  obtain ⟨-, rfl⟩ := gives_get.mp h
  simp

theorem hides_context : context.Hides [] := by
  intro s c t h
  obtain ⟨-, rfl⟩ := gives_context.mp h
  simp

theorem hides_modify {f : State → State} (hf : ∀ s, (f s).context.hidden = s.context.hidden) :
    (modify f : Assembly PUnit).Hides [] := by
  intro s u t h
  obtain rfl := gives_modify.mp h
  simp [hf]

theorem hides_modifyContext {f : Context → Context} (hf : ∀ c, (f c).hidden = c.hidden) :
    (modifyContext f).Hides [] := hides_modify fun s => hf s.context

theorem hides_add (f : World → Nat × World) : (add f).Hides [] := by
  intro s place t h
  obtain ⟨-, rfl⟩ := gives_add.mp h
  simp

theorem hides_hide (uri : String) : (hide uri).Hides [uri] := by
  intro s u t h
  obtain rfl := gives_modifyContext.mp h
  rfl

theorem hides_bind (place : Nat) (handler : Handler) : (Assembly.bind place handler).Hides [] :=
  hides_modify fun _ => rfl

theorem Hides.located {x : Assembly α} (hx : x.Hides uris) (uri : String) :
    (located uri x).Hides uris := fun s a t h => hx s a t (gives_located.mp h)

theorem Hides.withTtl {x : Assembly α} (hx : x.Hides uris) (ttl : Option Duration) :
    (withTtl ttl x).Hides uris := by
  cases ttl with
  | none => exact hx
  | some ttl =>
    intro s a t h
    obtain ⟨u, hu, rfl⟩ := gives_withTtl.mp h
    have hh := hx _ a u hu
    exact hh

theorem Hides.guarded {x : Assembly Resolved} (hx : x.Hides uris) (name uri : String) :
    (guarded name uri x).Hides uris := by
  intro s r t h
  obtain ⟨-, u, hu, rfl⟩ := gives_guarded.mp h
  have hh := hx _ r u hu
  exact hh

/-! Most actions hide nothing. -/

theorem hides_chainOf (ttl : Duration) (handlers : List Handler) :
    (chainOf ttl handlers).Hides [] := by
  unfold chainOf
  split
  · exact hides_pure _
  · exact hides_pure _
  · exact (hides_add _).andThen fun _ => hides_pure _

theorem hides_compressed (isCompressed : Bool) (handler : Handler) :
    (compressed isCompressed handler).Hides [] := by
  unfold compressed
  split
  · exact hides_context.andThen fun _ => hides_pure _
  · exact hides_pure _

theorem hides_resolveStatic (node : StaticNode) : (resolveStatic node).Hides [] := by
  refine hides_context.andThen fun c => ?_
  refine (hides_get.andThen fun _ => hides_pure _ : (staticRoots node).Hides []).andThen fun _ => ?_
  refine (hides_chainOf _ _).andThen fun _ => ?_
  exact (hides_compressed _ _).andThen fun _ => hides_pure _

theorem hides_resolveDispatch (node : DispatchNode) : (resolveDispatch node).Hides [] := by
  refine hides_context.andThen fun c => Hides.andThen (hides_modifyContext ?_) fun _ => ?_
  · exact fun _ => rfl
  · exact hides_pure _

theorem hides_resolveCapture (node : CaptureNode) :
    (resolveCapture node).Hides (hiddenTargets [node]) := by
  have hrest (uri : String) : (do return Resolved.handler (.capture (.ofNode node uri)
      (← context).application) : Assembly Resolved).Hides [] :=
    hides_context.andThen fun _ => hides_pure _
  unfold resolveCapture
  cases hm : node.isMarked with
  | true =>
    have hh : hiddenTargets [node] = [node.target] := by simp [hiddenTargets, hm]
    have hc : (node.hidden || (Text.dropTail? "!" node.uri).isSome) = true := hm
    simp only [hh, hc, if_true]
    exact (hides_hide _).thenNothing fun _ => hrest _
  | false =>
    have hh : hiddenTargets [node] = [] := by simp [hiddenTargets, hm]
    have hc : (node.hidden || (Text.dropTail? "!" node.uri).isSome) = false := hm
    simp only [hh, hc, Bool.false_eq_true, if_false]
    exact hrest _

theorem hides_resolveRedirect (node : RedirectNode) : (resolveRedirect node).Hides [] := by
  unfold resolveRedirect
  split
  · exact hides_pure _
  · exact hides_context.andThen fun _ => hides_pure _

theorem hides_filterOf (document : String) : (filterOf document).Hides [] :=
  hides_context.andThen fun _ => hides_pure _

theorem hides_compilerOf (pipeline : Pipeline) : (compilerOf pipeline).Hides [] := by
  unfold compilerOf
  split
  · refine hides_context.andThen fun c => ?_
    split
    · exact hides_pure _
    · exact hides_throw _
  · exact hides_pure _

theorem hides_assetsOf {δ : Type} (pipeline : Pipeline) (compiler : Option Compiler)
    (node : AssetNode δ) : (assetsOf pipeline compiler node).Hides [] :=
  hides_context.andThen fun _ => (hides_add _).andThen fun _ => hides_pure _

theorem hides_registerManual (node : ManualNode) : (registerManual node).Hides [] := by
  refine hides_context.andThen fun c => ?_
  split
  · refine (hides_add _).andThen fun slot => Hides.andThen (hides_modifyContext ?_) fun _ => ?_
    · exact fun _ => rfl
    · exact hides_pure _
  · split
    · exact hides_pure _
    · exact hides_throw _

theorem hides_registerTemplates (node : TemplatesNode) : (registerTemplates node).Hides [] := by
  refine hides_context.andThen fun c => ?_
  split
  · refine (hides_add _).andThen fun slot => Hides.andThen (hides_modifyContext ?_) fun _ => ?_
    · exact fun _ => rfl
    · exact hides_pure _
  · split
    · exact hides_pure _
    · exact hides_throw _

theorem hides_attachResolved (route : Route) (router : Router × List Handler)
    (resolved : Resolved) : (attachResolved route router resolved).Hides [] := by
  cases resolved with
  | hidden => exact hides_pure _
  | handler handler =>
    unfold attachResolved
    cases router.1.attach route with
    | ok r => exact hides_pure _
    | error e => exact hides_throw _

theorem hides_routeOf (text : String) : (routeOf text).Hides [] := by
  unfold routeOf
  split
  · exact hides_pure _
  · exact hides_throw _

theorem hides_requireMode (mode : RoutingMode) : (requireMode mode).Hides [] := by
  unfold requireMode
  split
  · exact hides_throw _
  · exact hides_pure _

end Assembly

open Assembly

variable {prebuilt : ResolvePrebuilt}

mutual

/-- Resolving a descriptor hides the targets of the marked captures in it. -/
theorem Descriptor.hides_resolve (hp : ∀ name uri, (prebuilt name uri).Hides []) :
    (d : Descriptor) → (uri : String) → (d.resolve prebuilt uri).Hides (hiddenTargets d.captures)
  | .hidden, _ => by
    rw [Descriptor.resolve, Descriptor.captures]
    exact hides_pure _
  | .chain nodes, uri => by
    rw [Descriptor.resolve, Descriptor.captures]
    refine hides_context.andThen fun c => ?_
    refine (hides_resolveAll hp nodes uri).thenNothing fun handlers => ?_
    exact (hides_chainOf _ _).andThen fun _ => hides_pure _
  | .node n, uri => by
    rw [Descriptor.resolve, Descriptor.captures]
    exact n.hides_resolve hp uri
  | .prebuilt name, uri => by
    rw [Descriptor.resolve, Descriptor.captures]
    exact hp name uri
  termination_by structural d => d

theorem hides_resolveAll (hp : ∀ name uri, (prebuilt name uri).Hides []) :
    (l : List Descriptor) → (uri : String) →
      (resolveAll prebuilt l uri).Hides (hiddenTargets (capturesAll l))
  | [], _ => by
    rw [resolveAll, capturesAll]
    exact hides_pure _
  | d :: rest, uri => by
    rw [resolveAll, capturesAll, hiddenTargets_append]
    refine (d.hides_resolve hp uri).bind fun resolved => ?_
    cases resolved with
    | hidden => exact hides_resolveAll hp rest uri
    | handler handler => exact (hides_resolveAll hp rest uri).thenNothing fun _ => hides_pure _
  termination_by structural l => l

theorem hides_resolveRoutes (hp : ∀ name uri, (prebuilt name uri).Hides []) :
    (l : List (String × Descriptor)) → (uri : String) → (router : Router × List Handler) →
      (resolveRoutes prebuilt l uri router).Hides (hiddenTargets (capturesOf l))
  | [], _, _ => by
    rw [resolveRoutes, capturesOf]
    exact hides_pure _
  | (key, d) :: rest, uri, router => by
    rw [resolveRoutes, capturesOf, hiddenTargets_append]
    refine ((hides_routeOf _).located _).andThen fun route => ?_
    refine ((d.hides_resolve hp _).located _).bind fun resolved => ?_
    refine ((hides_attachResolved _ _ _).located _).andThen fun router => ?_
    exact hides_resolveRoutes hp rest uri router
  termination_by structural l => l

theorem hides_resolveOrdered (hp : ∀ name uri, (prebuilt name uri).Hides []) :
    (routes : Ordered Descriptor) → (uri : String) → (mode : RoutingMode) →
      (ttl : Option Duration) →
      (resolveOrdered prebuilt routes uri mode ttl).Hides (hiddenTargets (capturesOrdered routes))
  | ⟨entries⟩, uri, mode, ttl => by
    rw [resolveOrdered, capturesOrdered]
    refine (hides_requireMode mode).andThen fun _ => (hides_add _).andThen fun place => ?_
    exact (hides_resolveRoutes hp entries uri _).withTtl ttl
  termination_by structural routes => routes

theorem Node.hides_resolve (hp : ∀ name uri, (prebuilt name uri).Hides []) :
    (n : Node) → (uri : String) → (n.resolve prebuilt uri).Hides (hiddenTargets n.captures)
  | .static node, _ => by
    rw [Node.resolve, Node.captures]
    exact hides_resolveStatic node
  | .manual node, _ => by
    rw [Node.resolve, Node.captures]
    exact (hides_registerManual node).andThen fun _ => hides_pure _
  | .templates node, _ => by
    rw [Node.resolve, Node.captures]
    exact (hides_registerTemplates node).andThen fun _ => hides_pure _
  | .dispatch node, _ => by
    rw [Node.resolve, Node.captures]
    exact hides_resolveDispatch node
  | .capture node, _ => by
    rw [Node.resolve, Node.captures]
    exact hides_resolveCapture node
  | .redirect node, _ => by
    rw [Node.resolve, Node.captures]
    exact hides_resolveRedirect node
  | .addSlash, _ => by
    rw [Node.resolve, Node.captures]
    exact hides_pure _
  | .router ⟨routes, mode, ttl⟩, uri => by
    rw [Node.resolve, Node.captures]
    exact (hides_resolveOrdered hp routes uri mode ttl).thenNothing fun _ => hides_pure _
  | .chain ⟨nodes, ttl⟩, uri => by
    rw [Node.resolve, Node.captures]
    refine hides_context.andThen fun c => ?_
    refine (hides_resolveAll hp nodes uri).thenNothing fun handlers => ?_
    exact (hides_chainOf _ _).andThen fun _ => hides_pure _
  | .filter ⟨library, next⟩, uri => by
    rw [Node.resolve, Node.captures]
    refine (next.hides_resolve hp uri).thenNothing fun _ => ?_
    exact (hides_filterOf _).andThen fun _ => hides_pure _
  | .injector ⟨locals, next⟩, uri => by
    rw [Node.resolve, Node.captures]
    exact (next.hides_resolve hp uri).thenNothing fun _ => hides_pure _
  | .cacheControl ⟨mediaTypes, default, next⟩, uri => by
    rw [Node.resolve, Node.captures]
    exact (next.hides_resolve hp uri).thenNothing fun _ => hides_pure _
  | .cors ⟨allowOrigin, allowMethods, allowHeaders, maxAge, next⟩, uri => by
    rw [Node.resolve, Node.captures]
    exact (next.hides_resolve hp uri).thenNothing fun _ => hides_pure _
  | .basicAuth ⟨credentials, realm, next⟩, uri => by
    rw [Node.resolve, Node.captures]
    exact (next.hides_resolve hp uri).thenNothing fun _ => hides_pure _
  | .status node, _ => by
    rw [Node.resolve, Node.captures]
    split
    · exact hides_pure _
    · exact hides_throw _
  | .resource node, _ => by
    rw [Node.resolve, Node.captures]
    refine hides_context.andThen fun c => ?_
    split
    · exact hides_pure _
    · exact hides_throw _
  | .assets pipeline ⟨roots, next, minify⟩, uri => by
    rw [Node.resolve, Node.captures]
    refine (hides_compilerOf pipeline).andThen fun compiler => ?_
    refine (next.hides_resolve hp uri).thenNothing fun _ => ?_
    exact (hides_assetsOf _ _ _).andThen fun _ => hides_pure _
  termination_by structural n => n

end

end RequestRouting
