import RequestRouting.Proofs.Assembly.Steps

/-!
# Resolving in similar states

Whether a descriptor can be resolved, and whether it turns out to be hidden, doesn't depend on how
many chains there are, nor on what was added for the resources of prebuilt nodes. So a descriptor that
is resolved in a state can be resolved in all states that don't differ otherwise, and the states
afterwards don't differ otherwise either.
-/

namespace RequestRouting

namespace Assembly

/-- Whether two states differ in chains and the counters of calls only. -/
def State.Similar (s t : State) : Prop :=
  ∃ chains calls, t = { s with world := { s.world with chains, calls } }

namespace State.Similar

variable {s t u : State}

theorem refl (s : State) : s.Similar s := ⟨_, _, rfl⟩

theorem symm (h : s.Similar t) : t.Similar s := by
  obtain ⟨chains, calls, rfl⟩ := h
  exact ⟨_, _, rfl⟩

theorem trans (h : s.Similar t) (h' : t.Similar u) : s.Similar u := by
  obtain ⟨_, _, rfl⟩ := h
  obtain ⟨_, _, rfl⟩ := h'
  exact ⟨_, _, rfl⟩

end State.Similar

variable {α β γ δ : Type} {x : Assembly α} {y : Assembly β} {f : α → Assembly γ}
  {g : β → Assembly δ} {P : α → β → Prop} {Q : γ → δ → Prop}

/-- Whether an action succeeds if another one does in a similar state, with a related value, and leads
to a similar state. -/
def Mirrors (x : Assembly α) (y : Assembly β) (P : α → β → Prop) : Prop :=
  ∀ s s' a t, s.Similar s' → x.Gives s a t → ∃ b t', y.Gives s' b t' ∧ P a b ∧ t.Similar t'

namespace Mirrors

theorem pure {a : α} {b : β} (h : P a b) : Mirrors (Pure.pure a) (Pure.pure b) P := by
  intro s s' _ _ hs ha
  obtain ⟨rfl, rfl⟩ := gives_pure.mp ha
  exact ⟨b, s', rfl, h, hs⟩

theorem throw (e : Error) : Mirrors (MonadExcept.throw e : Assembly α) y P :=
  fun _ _ _ _ _ h => absurd h gives_throw

theorem bind (hx : Mirrors x y P) (hf : ∀ a b, P a b → Mirrors (f a) (g b) Q) :
    Mirrors (x >>= f) (y >>= g) Q := by
  intro s s' c t hs h
  obtain ⟨a, u, ha, hc⟩ := gives_bind.mp h
  obtain ⟨b, u', hb, hp, hu⟩ := hx s s' a u hs ha
  obtain ⟨d, t', hd, hq, ht⟩ := hf a b hp u u' c t hu hc
  exact ⟨d, t', gives_bind.mpr ⟨b, u', hb, hd⟩, hq, ht⟩

/-- The context is the same in similar states. -/
theorem context {f : Context → Assembly γ} {g : Context → Assembly δ}
    (h : ∀ c, Mirrors (f c) (g c) Q) : Mirrors (context >>= f) (context >>= g) Q := by
  rintro s _ a t ⟨chains, calls, rfl⟩ ha
  exact h s.context s _ a t ⟨chains, calls, rfl⟩ ha

theorem modifyContext (f : Context → Context) :
    Mirrors (modifyContext f) (modifyContext f) fun _ _ => True := by
  rintro s _ _ _ ⟨chains, calls, rfl⟩ h
  obtain rfl := gives_modifyContext.mp h
  exact ⟨(), _, rfl, trivial, chains, calls, rfl⟩

/-- Something is added that doesn't depend on what may differ. -/
theorem add {f : World → Nat × World}
    (h : ∀ w chains calls, ∃ chains' calls', (f { w with chains, calls }).2 =
      { (f w).2 with chains := chains', calls := calls' }) :
    Mirrors (add f) (add f) fun _ _ => True := by
  rintro s _ _ _ ⟨chains, calls, rfl⟩ ha
  obtain ⟨-, rfl⟩ := gives_add.mp ha
  obtain ⟨chains', calls', he⟩ := h s.world chains calls
  exact ⟨_, _, rfl, trivial, chains', calls', by rw [he]⟩

theorem addSlot : Mirrors (Assembly.add (·.addSlot)) (Assembly.add (·.addSlot)) Eq := by
  rintro s _ _ _ ⟨chains, calls, rfl⟩ ha
  obtain ⟨rfl, rfl⟩ := gives_add.mp ha
  exact ⟨_, _, rfl, rfl, chains, calls, rfl⟩

theorem located {y : Assembly β} (h : Mirrors x y P) (uri : String) :
    Mirrors (located uri x) (located uri y) P := by
  intro s s' a t hs ha
  obtain ⟨b, t', hb, hrest⟩ := h s s' a t hs (gives_located.mp ha)
  exact ⟨b, t', gives_located.mpr hb, hrest⟩

theorem withTtl (h : Mirrors x y P) (ttl : Option Duration) :
    Mirrors (withTtl ttl x) (withTtl ttl y) P := by
  cases ttl with
  | none => exact h
  | some ttl =>
    rintro s _ a _ ⟨chains, calls, rfl⟩ ha
    obtain ⟨u, hu, rfl⟩ := gives_withTtl.mp ha
    obtain ⟨b, _, hb, hp, chains', calls', rfl⟩ := h _ _ a u ⟨chains, calls, rfl⟩ hu
    exact ⟨b, _, gives_withTtl.mpr ⟨_, hb, rfl⟩, hp, chains', calls', rfl⟩

theorem guarded {x y : Assembly Resolved} {P : Resolved → Resolved → Prop} (h : Mirrors x y P)
    (name uri : String) : Mirrors (guarded name uri x) (guarded name uri y) P := by
  rintro s _ a _ ⟨chains, calls, rfl⟩ ha
  obtain ⟨hn, u, hu, rfl⟩ := gives_guarded.mp ha
  obtain ⟨b, _, hb, hp, chains', calls', rfl⟩ := h _ _ a u ⟨chains, calls, rfl⟩ hu
  exact ⟨b, _, gives_guarded.mpr ⟨hn, _, hb, rfl⟩, hp, chains', calls', rfl⟩

theorem foldlM {ι : Type} {items : List ι} {f : α → ι → Assembly α} {g : β → ι → Assembly β}
    (h : ∀ a b item, P a b → Mirrors (f a item) (g b item) P) {a : α} {b : β} (hab : P a b) :
    Mirrors (items.foldlM f a) (items.foldlM g b) P := by
  induction items generalizing a b with
  | nil => exact .pure hab
  | cons item rest ih =>
    rw [List.foldlM_cons, List.foldlM_cons]
    exact (h a b item hab).bind fun _ _ => ih

end Mirrors

/-- Whether both of two resolved nodes are hidden, or none of them. -/
def SameHiding (a b : Resolved) : Prop := a = .hidden ↔ b = .hidden

theorem mirrors_handler (h h' : Handler) :
    Mirrors (pure (.handler h) : Assembly Resolved) (pure (.handler h')) SameHiding :=
  .pure (iff_of_false nofun nofun)

/-! The actions that nodes are resolved by. -/

theorem mirrors_chainOf (ttl ttl' : Duration) (handlers handlers' : List Handler) :
    Mirrors (chainOf ttl handlers) (chainOf ttl' handlers') fun _ _ => True := by
  have hchain (ttl : Duration) (handlers : List Handler) (s : State) :
      ∃ h t, (chainOf ttl handlers).Gives s h t ∧ s.Similar t := by
    unfold chainOf
    split
    · exact ⟨_, s, rfl, .refl s⟩
    · exact ⟨_, s, rfl, .refl s⟩
    · exact ⟨_, _, rfl, _, _, rfl⟩
  intro s s' a t hs ha
  obtain ⟨_, _, ha', ht⟩ := hchain ttl handlers s
  obtain ⟨rfl, rfl⟩ := Gives.unique ha' ha
  obtain ⟨b, t', hb, ht'⟩ := hchain ttl' handlers' s'
  exact ⟨b, t', hb, trivial, ht.symm.trans (hs.trans ht')⟩

theorem mirrors_compressed (isCompressed : Bool) (handler handler' : Handler) :
    Mirrors (compressed isCompressed handler) (compressed isCompressed handler')
      fun _ _ => True := by
  unfold compressed
  split
  · exact .context fun _ => .pure trivial
  · exact .pure trivial

theorem mirrors_resolveStatic (node : StaticNode) :
    Mirrors (resolveStatic node) (resolveStatic node) SameHiding := by
  have hroots : Mirrors (staticRoots node) (staticRoots node) fun _ _ => True := by
    rintro s _ _ _ ⟨chains, calls, rfl⟩ ha
    obtain ⟨rfl, rfl⟩ := gives_pure.mp ha
    exact ⟨_, _, rfl, trivial, chains, calls, rfl⟩
  refine .context fun c => hroots.bind fun handlers handlers' _ => ?_
  refine (mirrors_chainOf _ _ handlers handlers').bind fun h h' _ => ?_
  exact (mirrors_compressed _ h h').bind fun _ _ _ => mirrors_handler _ _

theorem mirrors_registerManual (node : ManualNode) :
    Mirrors (registerManual node) (registerManual node) fun _ _ => True := by
  refine .context fun c => ?_
  cases c.manual with
  | none =>
    refine Mirrors.addSlot.bind ?_
    rintro slot _ rfl
    exact (Mirrors.modifyContext _).bind fun _ _ _ => .pure trivial
  | some first =>
    dsimp only
    split
    · exact .pure trivial
    · exact .throw _

theorem mirrors_registerTemplates (node : TemplatesNode) :
    Mirrors (registerTemplates node) (registerTemplates node) fun _ _ => True := by
  refine .context fun c => ?_
  cases c.templates with
  | none =>
    refine Mirrors.addSlot.bind ?_
    rintro slot _ rfl
    exact (Mirrors.modifyContext _).bind fun _ _ _ => .pure trivial
  | some first =>
    dsimp only
    split
    · exact .pure trivial
    · exact .throw _

theorem mirrors_resolveDispatch (node : DispatchNode) :
    Mirrors (resolveDispatch node) (resolveDispatch node) SameHiding :=
  .context fun _ => (Mirrors.modifyContext _).bind fun _ _ _ => mirrors_handler _ _

theorem mirrors_resolveCapture (node : CaptureNode) :
    Mirrors (resolveCapture node) (resolveCapture node) SameHiding := by
  unfold resolveCapture
  dsimp only
  split
  · exact (Mirrors.modifyContext _).bind fun _ _ _ => .context fun _ => mirrors_handler _ _
  · exact .context fun _ => mirrors_handler _ _

theorem mirrors_resolveRedirect (node : RedirectNode) :
    Mirrors (resolveRedirect node) (resolveRedirect node) SameHiding := by
  unfold resolveRedirect
  split
  · exact mirrors_handler _ _
  · exact .context fun _ => mirrors_handler _ _

theorem mirrors_compilerOf (pipeline : Pipeline) :
    Mirrors (compilerOf pipeline) (compilerOf pipeline) fun _ _ => True := by
  unfold compilerOf
  split
  · refine .context fun c => ?_
    split
    · exact .pure trivial
    · exact .throw _
  · exact .pure trivial

theorem mirrors_assetsOf {δ : Type} (pipeline : Pipeline) (compiler compiler' : Option Compiler)
    (node : AssetNode δ) :
    Mirrors (assetsOf pipeline compiler node) (assetsOf pipeline compiler' node)
      fun _ _ => True :=
  .context fun _ => (Mirrors.add fun _ _ _ => ⟨_, _, rfl⟩).bind fun _ _ _ => .pure trivial

theorem mirrors_routeOf (text : String) : Mirrors (routeOf text) (routeOf text) Eq := by
  unfold routeOf
  split
  · exact .pure rfl
  · exact .throw _

/-- What is resolved is attached, whatever router it's attached to. -/
theorem mirrors_attachResolved (route : Route) {resolved resolved' : Resolved}
    (h : SameHiding resolved resolved') (router router' : Router × List Handler) :
    Mirrors (attachResolved route router resolved) (attachResolved route router' resolved')
      fun _ _ => True := by
  cases resolved with
  | hidden =>
    obtain rfl := h.mp rfl
    exact .pure trivial
  | handler handler =>
    cases resolved' with
    | hidden => cases h.mpr rfl
    | handler handler' =>
      unfold attachResolved Router.attach
      cases route.matcher with
      | ok matcher => exact .pure trivial
      | error e => exact .throw _

theorem mirrors_requireMode (mode : RoutingMode) :
    Mirrors (requireMode mode) (requireMode mode) fun _ _ => True := by
  unfold requireMode
  split
  · exact .throw _
  · exact .pure trivial

end Assembly

open Assembly

variable {prebuilt : ResolvePrebuilt}

mutual

/-- A descriptor is resolved in similar states alike. -/
theorem Descriptor.mirrors_resolve
    (hp : ∀ name uri, Mirrors (prebuilt name uri) (prebuilt name uri) SameHiding) :
    (d : Descriptor) → (uri : String) →
      Mirrors (d.resolve prebuilt uri) (d.resolve prebuilt uri) SameHiding
  | .hidden, _ => by
    rw [Descriptor.resolve]
    exact .pure Iff.rfl
  | .chain nodes, uri => by
    rw [Descriptor.resolve]
    refine .context fun c => (mirrors_resolveAll hp nodes uri).bind fun handlers handlers' _ => ?_
    exact (mirrors_chainOf _ _ handlers handlers').bind fun _ _ _ => mirrors_handler _ _
  | .node n, uri => by
    rw [Descriptor.resolve]
    exact n.mirrors_resolve hp uri
  | .prebuilt name, uri => by
    rw [Descriptor.resolve]
    exact hp name uri
  termination_by structural d => d

theorem mirrors_resolveAll
    (hp : ∀ name uri, Mirrors (prebuilt name uri) (prebuilt name uri) SameHiding) :
    (nodes : List Descriptor) → (uri : String) →
      Mirrors (resolveAll prebuilt nodes uri) (resolveAll prebuilt nodes uri) fun _ _ => True
  | [], _ => by
    rw [resolveAll]
    exact .pure trivial
  | d :: rest, uri => by
    rw [resolveAll]
    refine (d.mirrors_resolve hp uri).bind fun resolved resolved' h => ?_
    cases resolved with
    | hidden =>
      obtain rfl := h.mp rfl
      exact mirrors_resolveAll hp rest uri
    | handler handler =>
      cases resolved' with
      | hidden => cases h.mpr rfl
      | handler handler' =>
        exact (mirrors_resolveAll hp rest uri).bind fun _ _ _ => .pure trivial
  termination_by structural l => l

theorem mirrors_resolveRoutes
    (hp : ∀ name uri, Mirrors (prebuilt name uri) (prebuilt name uri) SameHiding) :
    (entries : List (String × Descriptor)) → (uri : String) →
      (router router' : Router × List Handler) →
      Mirrors (resolveRoutes prebuilt entries uri router)
        (resolveRoutes prebuilt entries uri router') fun _ _ => True
  | [], _, _, _ => by
    rw [resolveRoutes, resolveRoutes]
    exact .pure trivial
  | (key, d) :: rest, uri, router, router' => by
    rw [resolveRoutes, resolveRoutes]
    refine ((mirrors_routeOf _).located _).bind ?_
    rintro route _ rfl
    refine ((d.mirrors_resolve hp _).located _).bind fun resolved resolved' h => ?_
    refine ((mirrors_attachResolved route h router router').located _).bind
      fun router router' _ => ?_
    exact mirrors_resolveRoutes hp rest uri router router'
  termination_by structural l => l

theorem mirrors_resolveOrdered
    (hp : ∀ name uri, Mirrors (prebuilt name uri) (prebuilt name uri) SameHiding) :
    (routes : Ordered Descriptor) → (uri : String) → (mode : RoutingMode) →
      (ttl : Option Duration) →
      Mirrors (resolveOrdered prebuilt routes uri mode ttl)
        (resolveOrdered prebuilt routes uri mode ttl) fun _ _ => True
  | ⟨entries⟩, uri, mode, ttl => by
    rw [resolveOrdered]
    refine (mirrors_requireMode mode).bind fun _ _ _ => ?_
    refine (Mirrors.add fun _ _ _ => ⟨_, _, rfl⟩).bind fun place place' _ => ?_
    exact (mirrors_resolveRoutes hp entries uri ({ mode, place }, [])
      ({ mode, place := place' }, [])).withTtl ttl
  termination_by structural routes => routes

theorem Node.mirrors_resolve
    (hp : ∀ name uri, Mirrors (prebuilt name uri) (prebuilt name uri) SameHiding) :
    (n : Node) → (uri : String) →
      Mirrors (n.resolve prebuilt uri) (n.resolve prebuilt uri) SameHiding
  | .static node, _ => by
    rw [Node.resolve]
    exact mirrors_resolveStatic node
  | .manual node, _ => by
    rw [Node.resolve]
    exact (mirrors_registerManual node).bind fun _ _ _ => mirrors_handler _ _
  | .templates node, _ => by
    rw [Node.resolve]
    exact (mirrors_registerTemplates node).bind fun _ _ _ => mirrors_handler _ _
  | .dispatch node, _ => by
    rw [Node.resolve]
    exact mirrors_resolveDispatch node
  | .capture node, _ => by
    rw [Node.resolve]
    exact mirrors_resolveCapture node
  | .redirect node, _ => by
    rw [Node.resolve]
    exact mirrors_resolveRedirect node
  | .addSlash, _ => by
    rw [Node.resolve]
    exact mirrors_handler _ _
  | .router ⟨routes, mode, ttl⟩, uri => by
    rw [Node.resolve]
    exact (mirrors_resolveOrdered hp routes uri mode ttl).bind fun _ _ _ => mirrors_handler _ _
  | .chain ⟨nodes, ttl⟩, uri => by
    rw [Node.resolve]
    refine .context fun c => (mirrors_resolveAll hp nodes uri).bind fun handlers handlers' _ => ?_
    exact (mirrors_chainOf _ _ handlers handlers').bind fun _ _ _ => mirrors_handler _ _
  | .filter ⟨library, next⟩, uri => by
    rw [Node.resolve]
    refine (next.mirrors_resolve hp uri).bind fun _ _ _ => ?_
    have hfilter : Mirrors (filterOf library) (filterOf library) fun _ _ => True :=
      .context fun _ => .pure trivial
    exact hfilter.bind fun _ _ _ => mirrors_handler _ _
  | .injector ⟨locals, next⟩, uri => by
    rw [Node.resolve]
    exact (next.mirrors_resolve hp uri).bind fun _ _ _ => mirrors_handler _ _
  | .cacheControl ⟨mediaTypes, default, next⟩, uri => by
    rw [Node.resolve]
    exact (next.mirrors_resolve hp uri).bind fun _ _ _ => mirrors_handler _ _
  | .cors ⟨allowOrigin, allowMethods, allowHeaders, maxAge, next⟩, uri => by
    rw [Node.resolve]
    exact (next.mirrors_resolve hp uri).bind fun _ _ _ => mirrors_handler _ _
  | .basicAuth ⟨credentials, realm, next⟩, uri => by
    rw [Node.resolve]
    exact (next.mirrors_resolve hp uri).bind fun _ _ _ => mirrors_handler _ _
  | .status node, _ => by
    rw [Node.resolve]
    split
    · exact mirrors_handler _ _
    · exact .throw _
  | .resource node, _ => by
    rw [Node.resolve]
    refine .context fun c => ?_
    split
    · exact mirrors_handler _ _
    · exact .throw _
  | .assets pipeline ⟨roots, next, minify⟩, uri => by
    rw [Node.resolve]
    refine (mirrors_compilerOf pipeline).bind fun compiler compiler' _ => ?_
    refine (next.mirrors_resolve hp uri).bind fun _ _ _ => ?_
    exact (mirrors_assetsOf pipeline compiler compiler' _).bind fun _ _ _ => mirrors_handler _ _
  termination_by structural n => n

end

namespace Assembly

/-- A prebuilt node is resolved in similar states alike, however deep it's nested. -/
theorem mirrors_resolvePrebuilt (fuel : Nat) (name uri : String) :
    Mirrors (resolvePrebuilt fuel name uri) (resolvePrebuilt fuel name uri) SameHiding := by
  induction fuel generalizing name uri with
  | zero => exact .throw _
  | succ fuel ih =>
    refine .context fun c => ?_
    split
    · exact .pure Iff.rfl
    · rename_i node _
      refine Mirrors.guarded ?_ name uri
      cases node with
      | closure response =>
        exact .context fun _ => (Mirrors.add fun _ _ _ => ⟨_, _, rfl⟩).bind
          fun _ _ _ => mirrors_handler _ _
      | family handler steps =>
        exact Mirrors.foldlM (fun _ _ step _ => ih step.1 (step.2.getD uri)) Iff.rfl

theorem similar_foldlM {α ι : Type} {items : List ι} {f : α → ι → Assembly α}
    (hf : ∀ a item s b t, (f a item).Gives s b t → s.Similar t) {a b : α} {s t : State}
    (h : (items.foldlM f a).Gives s b t) : s.Similar t := by
  induction items generalizing a s with
  | nil =>
    obtain ⟨-, rfl⟩ := gives_pure.mp h
    exact .refl s
  | cons item rest ih =>
    rw [List.foldlM_cons] at h
    obtain ⟨c, u, hc, hrest⟩ := gives_bind.mp h
    exact (hf a item s c u hc).trans (ih hrest)

/-- A prebuilt node adds nothing but what may differ in similar states. -/
theorem similar_resolvePrebuilt {fuel : Nat} {name uri : String} {r : Resolved} {s t : State}
    (h : (resolvePrebuilt fuel name uri).Gives s r t) : s.Similar t := by
  induction fuel generalizing name uri r s t with
  | zero => exact absurd h gives_throw
  | succ fuel ih =>
    simp only [resolvePrebuilt, gives_bind, gives_context] at h
    obtain ⟨_, _, ⟨rfl, rfl⟩, h⟩ := h
    split at h
    · obtain ⟨-, rfl⟩ := gives_pure.mp h
      exact .refl s
    · rename_i node _
      obtain ⟨-, u, hu, rfl⟩ := gives_guarded.mp h
      have hcreate {s : State} (hu : (createPrebuilt (resolvePrebuilt fuel) uri node).Gives s r u) :
          s.Similar u := by
        cases node with
        | closure response =>
          simp only [createPrebuilt, gives_bind, gives_context, gives_add, gives_pure] at hu
          obtain ⟨_, _, ⟨rfl, rfl⟩, _, _, ⟨-, rfl⟩, -, rfl⟩ := hu
          exact ⟨_, _, rfl⟩
        | family handler steps =>
          exact similar_foldlM (fun _ step _ _ _ hstep => ih hstep) hu
      obtain ⟨chains, calls, rfl⟩ := hcreate hu
      exact ⟨chains, calls, rfl⟩

end Assembly

end RequestRouting
