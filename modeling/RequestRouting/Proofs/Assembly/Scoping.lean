import RequestRouting.Proofs.Assembly.Finished
import RequestRouting.Proofs.Assembly.Steps

/-!
# Time spans of chains

How long a chain remembers winners is a matter of where it stands. One that has no time span of its
own gets that of the innermost router around it that has one, and that of the settings if there is
none, no matter what else is resolved before it. Routers inside of the chain, and siblings of the
routers around it, have no bearing on it.
-/

namespace RequestRouting

/-- What a node wraps. -/
def Node.next? : Node → Option Descriptor
  | .filter node => some node.next
  | .injector node => some node.next
  | .cacheControl node => some node.next
  | .cors node => some node.next
  | .basicAuth node => some node.next
  | .assets _ node => some node.next
  | _ => none

/-- Whether a node neither contains nor wraps others, and isn't resolved into a chain. -/
def Node.isLeaf : Node → Bool
  | .manual _ | .templates _ | .dispatch _ | .capture _ | .redirect _ | .addSlash | .status _
  | .resource _ => true
  | _ => false

/-- The handler that offers requests to several handlers in order, and remembers winners for a time
span. There's no need for a chain of less than two. -/
inductive Offers (ttl : Duration) : List Handler → Handler → Prop where
  | nothing : Offers ttl [] .notFound
  | only (h : Handler) : Offers ttl [h] h
  | inOrder {handlers : List Handler} (h : 1 < handlers.length) (place : Nat) :
      Offers ttl handlers (.chain { ttl, place } handlers)

open Assembly

mutual

/-- What a descriptor is resolved into where chains get the given time span. Only the time spans of
chains are specified. -/
inductive Descriptor.Becomes (s : State) : Duration → Descriptor → Resolved → Prop where
  | hidden {ttl : Duration} : Descriptor.Becomes s ttl .hidden .hidden
  | chain {ttl : Duration} {nodes : List Descriptor} {handlers : List Handler} {h : Handler}
      (hn : AllBecome s ttl nodes handlers) (ho : Offers ttl handlers h) :
      Descriptor.Becomes s ttl (.chain nodes) (.handler h)
  | node {ttl : Duration} {n : Node} {r : Resolved} (hn : Node.Becomes s ttl n r) :
      Descriptor.Becomes s ttl (.node n) r
  | prebuilt {ttl : Duration} (name : String) (r : Resolved) :
      Descriptor.Becomes s ttl (.prebuilt name) r

/-- What several descriptors are resolved into, those that are hidden being left out. -/
inductive AllBecome (s : State) : Duration → List Descriptor → List Handler → Prop where
  | nil {ttl : Duration} : AllBecome s ttl [] []
  | hidden {ttl : Duration} {d : Descriptor} {rest : List Descriptor} {handlers : List Handler}
      (hd : Descriptor.Becomes s ttl d .hidden) (hr : AllBecome s ttl rest handlers) :
      AllBecome s ttl (d :: rest) handlers
  | handler {ttl : Duration} {d : Descriptor} {rest : List Descriptor} {handlers : List Handler}
      {h : Handler} (hd : Descriptor.Becomes s ttl d (.handler h))
      (hr : AllBecome s ttl rest handlers) : AllBecome s ttl (d :: rest) (h :: handlers)

/-- What a node is resolved into where chains get the given time span. -/
inductive Node.Becomes (s : State) : Duration → Node → Resolved → Prop where
  | static {ttl : Duration} {node : StaticNode} {roots : List Handler} {h h' : Handler}
      (hr : (staticRoots node).Gives s roots s)
      (ho : Offers (node.cacheDuration.getD ttl) roots h)
      (hc : h' = h ∨ ∃ compress, h' = .layer (.compress compress) h) :
      Node.Becomes s ttl (.static node) (.handler h')
  /-- The time span of a router is for what's inside of it. -/
  | router {ttl : Duration} {node : RouterNode Descriptor} {handlers : List Handler}
      (router : Router)
      (hr : AllBecome s (node.cacheDuration.getD ttl) (node.routes.entries.map (·.2)) handlers) :
      Node.Becomes s ttl (.router node) (.handler (.router router handlers))
  /-- The time span of a chain is for the chain only. -/
  | chain {ttl : Duration} {node : ChainNode Descriptor} {handlers : List Handler} {h : Handler}
      (hn : AllBecome s ttl node.nodes handlers)
      (ho : Offers (node.cacheDuration.getD ttl) handlers h) :
      Node.Becomes s ttl (.chain node) (.handler h)
  | wrapper {ttl : Duration} {n : Node} {next : Descriptor} {r : Resolved}
      (hn : n.next? = some next) (hr : Descriptor.Becomes s ttl next r) (middleware : Middleware) :
      Node.Becomes s ttl n (.handler (.layer middleware r.toHandler))
  | leaf {ttl : Duration} {n : Node} (hn : n.isLeaf = true) (r : Resolved) :
      Node.Becomes s ttl n r

end

namespace Assembly

/-- A state on the way of resolving that was begun in another one, at a place where chains get the
given time span. -/
structure State.InScope (s : State) (ttl : Duration) (u : State) : Prop where
  root : u.context.root = s.context.root
  settings : u.context.settings = s.context.settings
  files : u.world.files = s.world.files
  ttl : u.context.ttl = ttl

namespace State.InScope

variable {s u v : State} {ttl : Duration}

theorem refl (s : State) : s.InScope s.context.ttl s := ⟨rfl, rfl, rfl, rfl⟩

/-- What is resolved has no bearing on the time span for what follows. -/
theorem step (h : s.InScope ttl u) (hf : SameFrame u v) : s.InScope ttl v :=
  ⟨(congrArg Context.root hf.context).trans h.root,
    (congrArg Context.settings hf.context).trans h.settings, hf.files.trans h.files,
    (congrArg Context.ttl hf.context).trans h.ttl⟩

theorem within (h : s.InScope ttl u) (inner : Duration) :
    s.InScope inner { u with context.chainTtl := some inner } := { h with ttl := rfl }

/-- The roots of static files that exist are the same all the time. -/
theorem gives_staticRoots (h : s.InScope ttl u) {node : StaticNode} {handlers : List Handler}
    (hg : (staticRoots node).Gives u handlers v) :
    u = v ∧ (staticRoots node).Gives s handlers s := by
  simp only [staticRoots, gives_bind, gives_get, gives_pure] at hg ⊢
  obtain ⟨_, _, ⟨rfl, rfl⟩, rfl, rfl⟩ := hg
  refine ⟨rfl, s, s, ⟨rfl, rfl⟩, ?_, rfl⟩
  simp only [Context.path, Context.types, h.root, h.settings, h.files]

end State.InScope

variable {s u t : State} {ttl scope : Duration} {prebuilt : ResolvePrebuilt}

theorem offers_of_gives {handlers : List Handler} {h : Handler}
    (hg : (chainOf ttl handlers).Gives s h t) : Offers ttl handlers h := by
  unfold chainOf at hg
  split at hg
  · obtain ⟨rfl, -⟩ := gives_pure.mp hg
    exact .nothing
  · obtain ⟨rfl, -⟩ := gives_pure.mp hg
    exact .only _
  · rename_i hnil hone
    simp only [gives_bind, gives_add, gives_pure] at hg
    obtain ⟨place, -, -, rfl, -⟩ := hg
    refine .inOrder ?_ place
    cases handlers with
    | nil => exact absurd rfl hnil
    | cons first rest =>
      cases rest with
      | nil => exact absurd rfl (hone first)
      | cons second rest => exact Nat.succ_lt_succ (Nat.succ_pos _)

theorem becomes_resolveStatic {node : StaticNode} {r : Resolved} (hu : s.InScope scope u)
    (hg : (resolveStatic node).Gives u r t) : Node.Becomes s scope (.static node) r := by
  simp only [resolveStatic, gives_bind, gives_context, gives_pure] at hg
  obtain ⟨_, _, ⟨rfl, rfl⟩, roots, v, hroots, h, w, hoffers, h', _, hcompressed, rfl, -⟩ := hg
  obtain ⟨rfl, hexist⟩ := hu.gives_staticRoots hroots
  have ho := offers_of_gives hoffers
  rw [hu.ttl] at ho
  exact .static hexist ho (gives_compressed hcompressed).2

end Assembly

variable {s u t : State} {scope : Duration} {prebuilt : ResolvePrebuilt}

mutual

/-- Chains in a descriptor get the time span of their scope. -/
theorem Descriptor.becomes_resolve (hp : ∀ name uri, Leads SameFrame (prebuilt name uri)) :
    (d : Descriptor) → (uri : String) → ∀ {scope u r t}, s.InScope scope u →
      (d.resolve prebuilt uri).Gives u r t → d.Becomes s scope r
  | .hidden, _, _, _, _, _, _, hg => by
    rw [Descriptor.resolve] at hg
    obtain ⟨rfl, -⟩ := gives_pure.mp hg
    exact .hidden
  | .chain nodes, uri, _, u, _, _, hu, hg => by
    simp only [Descriptor.resolve, gives_bind, gives_context, gives_pure] at hg
    obtain ⟨_, _, ⟨rfl, rfl⟩, handlers, v, hall, h, _, hoffers, rfl, -⟩ := hg
    have ho := offers_of_gives hoffers
    rw [hu.ttl] at ho
    exact .chain (becomes_resolveAll hp nodes uri hu hall) ho
  | .node n, uri, _, _, _, _, hu, hg => by
    rw [Descriptor.resolve] at hg
    exact .node (n.becomes_resolve hp uri hu hg)
  | .prebuilt name, _, _, _, r, _, _, _ => .prebuilt name r
  termination_by structural d => d

theorem becomes_resolveAll (hp : ∀ name uri, Leads SameFrame (prebuilt name uri)) :
    (nodes : List Descriptor) → (uri : String) → ∀ {scope u handlers t}, s.InScope scope u →
      (resolveAll prebuilt nodes uri).Gives u handlers t → AllBecome s scope nodes handlers
  | [], _, _, _, _, _, _, hg => by
    rw [resolveAll] at hg
    obtain ⟨rfl, -⟩ := gives_pure.mp hg
    exact .nil
  | d :: rest, uri, _, u, _, _, hu, hg => by
    rw [resolveAll, gives_bind] at hg
    obtain ⟨r, v, hd, hrest⟩ := hg
    have hfirst := d.becomes_resolve hp uri hu hd
    have hv := hu.step ((d.leads_resolve isClosed_sameFrame hp uri).gives hd)
    cases r with
    | hidden => exact .hidden hfirst (becomes_resolveAll hp rest uri hv hrest)
    | handler h =>
      simp only [gives_bind, gives_pure] at hrest
      obtain ⟨handlers, w, hrest, rfl, -⟩ := hrest
      exact .handler hfirst (becomes_resolveAll hp rest uri hv hrest)
  termination_by structural l => l

theorem becomes_resolveRoutes (hp : ∀ name uri, Leads SameFrame (prebuilt name uri)) :
    (entries : List (String × Descriptor)) → (uri : String) → ∀ {scope u p q t},
      s.InScope scope u → (resolveRoutes prebuilt entries uri p).Gives u q t →
        ∃ handlers, q.2 = p.2 ++ handlers ∧ AllBecome s scope (entries.map (·.2)) handlers
  | [], _, _, _, p, _, _, _, hg => by
    rw [resolveRoutes] at hg
    obtain ⟨rfl, -⟩ := gives_pure.mp hg
    exact ⟨[], (List.append_nil _).symm, .nil⟩
  | (key, d) :: rest, uri, _, u, p, q, _, hu, hg => by
    simp only [resolveRoutes, gives_bind, gives_located, gives_routeOf] at hg
    obtain ⟨route, _, ⟨-, rfl⟩, r, v, hd, p', w, hattach, hrest⟩ := hg
    have hfirst := d.becomes_resolve hp _ hu hd
    have hv := hu.step ((d.leads_resolve isClosed_sameFrame hp _).gives hd)
    have hw := hv.step ((isClosed_sameFrame.attachResolved route p r).gives hattach)
    obtain ⟨handlers, hq, hall⟩ := becomes_resolveRoutes hp rest uri hw hrest
    cases r with
    | hidden =>
      obtain ⟨rfl, -⟩ := gives_pure.mp hattach
      exact ⟨handlers, hq, .hidden hfirst hall⟩
    | handler h =>
      obtain ⟨-, hp', -⟩ := gives_attachResolved hattach
      rw [hp', List.append_assoc] at hq
      exact ⟨h :: handlers, hq, .handler hfirst hall⟩
  termination_by structural l => l

theorem becomes_resolveOrdered (hp : ∀ name uri, Leads SameFrame (prebuilt name uri)) :
    (routes : Ordered Descriptor) → (uri : String) → (mode : RoutingMode) →
      (ttl : Option Duration) → ∀ {scope u q t}, s.InScope scope u →
        (resolveOrdered prebuilt routes uri mode ttl).Gives u q t →
          AllBecome s (ttl.getD scope) (routes.entries.map (·.2)) q.2
  | ⟨entries⟩, uri, mode, ttl, scope, u, q, _, hu, hg => by
    simp only [resolveOrdered, gives_bind, gives_add] at hg
    obtain ⟨_, v, hmode, place, _, ⟨rfl, rfl⟩, hroutes⟩ := hg
    have hv := hu.step ((isClosed_sameFrame.requireMode mode).gives hmode)
    have hw := hv.step (isClosed_sameFrame.turn v)
    obtain ⟨handlers, hq, hall⟩ : ∃ handlers, q.2 = [] ++ handlers ∧
        AllBecome s (ttl.getD scope) (entries.map (·.2)) handlers := by
      cases ttl with
      | none => exact becomes_resolveRoutes hp entries uri hw hroutes
      | some ttl =>
        obtain ⟨x, hx, -⟩ := gives_withTtl.mp hroutes
        exact becomes_resolveRoutes hp entries uri (hw.within ttl) hx
    rw [List.nil_append] at hq
    rwa [hq]
  termination_by structural routes => routes

theorem Node.becomes_resolve (hp : ∀ name uri, Leads SameFrame (prebuilt name uri)) :
    (n : Node) → (uri : String) → ∀ {scope u r t}, s.InScope scope u →
      (n.resolve prebuilt uri).Gives u r t → n.Becomes s scope r
  | .static node, _, _, _, _, _, hu, hg => by
    rw [Node.resolve] at hg
    exact becomes_resolveStatic hu hg
  | .router ⟨routes, mode, ttl⟩, uri, _, _, _, _, hu, hg => by
    simp only [Node.resolve, gives_bind, gives_pure] at hg
    obtain ⟨⟨router, handlers⟩, _, hroutes, rfl, -⟩ := hg
    exact .router router (becomes_resolveOrdered hp routes uri mode ttl hu hroutes)
  | .chain ⟨nodes, ttl⟩, uri, _, u, _, _, hu, hg => by
    simp only [Node.resolve, gives_bind, gives_context, gives_pure] at hg
    obtain ⟨_, _, ⟨rfl, rfl⟩, handlers, v, hall, h, _, hoffers, rfl, -⟩ := hg
    have ho := offers_of_gives hoffers
    rw [hu.ttl] at ho
    exact .chain (becomes_resolveAll hp nodes uri hu hall) ho
  | .filter ⟨library, next⟩, uri, _, _, _, _, hu, hg => by
    simp only [Node.resolve, gives_bind, gives_pure] at hg
    obtain ⟨r, _, hnext, _, _, -, rfl, -⟩ := hg
    exact .wrapper rfl (next.becomes_resolve hp uri hu hnext) _
  | .injector ⟨locals, next⟩, uri, _, _, _, _, hu, hg => by
    simp only [Node.resolve, gives_bind, gives_pure] at hg
    obtain ⟨r, _, hnext, rfl, -⟩ := hg
    exact .wrapper rfl (next.becomes_resolve hp uri hu hnext) _
  | .cacheControl ⟨mediaTypes, default, next⟩, uri, _, _, _, _, hu, hg => by
    simp only [Node.resolve, gives_bind, gives_pure] at hg
    obtain ⟨r, _, hnext, rfl, -⟩ := hg
    exact .wrapper rfl (next.becomes_resolve hp uri hu hnext) _
  | .cors ⟨allowOrigin, allowMethods, allowHeaders, maxAge, next⟩, uri, _, _, _, _, hu, hg => by
    simp only [Node.resolve, gives_bind, gives_pure] at hg
    obtain ⟨r, _, hnext, rfl, -⟩ := hg
    exact .wrapper rfl (next.becomes_resolve hp uri hu hnext) _
  | .basicAuth ⟨credentials, realm, next⟩, uri, _, _, _, _, hu, hg => by
    simp only [Node.resolve, gives_bind, gives_pure] at hg
    obtain ⟨r, _, hnext, rfl, -⟩ := hg
    exact .wrapper rfl (next.becomes_resolve hp uri hu hnext) _
  | .assets pipeline ⟨roots, next, minify⟩, uri, _, _, _, _, hu, hg => by
    simp only [Node.resolve, gives_bind, gives_pure] at hg
    obtain ⟨compiler, _, hcompiler, r, _, hnext, _, _, -, rfl, -⟩ := hg
    have hv := hu.step ((isClosed_sameFrame.compilerOf pipeline).gives hcompiler)
    exact .wrapper rfl (next.becomes_resolve hp uri hv hnext) _
  | .manual _, _, _, _, r, _, _, _ => .leaf rfl r
  | .templates _, _, _, _, r, _, _, _ => .leaf rfl r
  | .dispatch _, _, _, _, r, _, _, _ => .leaf rfl r
  | .capture _, _, _, _, r, _, _, _ => .leaf rfl r
  | .redirect _, _, _, _, r, _, _, _ => .leaf rfl r
  | .addSlash, _, _, _, r, _, _, _ => .leaf rfl r
  | .status _, _, _, _, r, _, _, _ => .leaf rfl r
  | .resource _, _, _, _, r, _, _, _ => .leaf rfl r
  termination_by structural n => n

end

namespace Assembly

/-- Resolving a descriptor leaves the time span for chains as it was, whether it succeeds or fails,
and chains in it get the one of their scope. -/
theorem ttl_scoped (d : Descriptor) (uri : String) (s : State) :
    (resolve d uri s).2.context.chainTtl = s.context.chainTtl ∧
      ∀ r t, (resolve d uri).Gives s r t →
        d.Becomes s (s.context.chainTtl.getD s.context.settings.validity) r := by
  have hframe : SameFrame s (resolve d uri s).2 := leads_resolve isClosed_sameFrame d uri s
  refine ⟨by rw [hframe.context], fun r t hg => ?_⟩
  simp only [resolve, gives_bind, gives_context] at hg
  obtain ⟨_, _, ⟨rfl, rfl⟩, hg⟩ := hg
  exact d.becomes_resolve (leads_resolvePrebuilt isClosed_sameFrame _) uri (.refl s) hg

/-- Two nodes to try in order. -/
def pair : Descriptor := .chain [.node (.status {}), .node (.status {})]

/-- A chain in a router without a time span in one that has one, and a chain that comes after. -/
def nestedRouters : Descriptor := .node (.router { routes := ⟨[
  ("/a*", .node (.router
    { routes := ⟨[("/b*", .node (.router { routes := ⟨[("/", pair)]⟩ }))]⟩
      cacheDuration := some 5 })),
  ("/c", pair)]⟩ })

/-- The time spans of the chains in a handler. -/
def chainTtls (r : Resolved) : List Duration :=
  r.toHandler.nodes.filterMap fun
    | .chain c _ => some c.ttl
    | _ => none

theorem ttl_scoped_nestedRouters : ∃ r t, (resolve nestedRouters "/").Gives (freshState {}) r t ∧
    chainTtls r = [5, (freshState {}).context.settings.validity] ∧
    (resolve nestedRouters "/" (freshState {})).2.context.chainTtl = none ∧
    nestedRouters.Becomes (freshState {}) (freshState {}).context.settings.validity r := by
  have hn : ((resolve nestedRouters "/" (freshState {})).1.toOption.map chainTtls) =
      some [5, (freshState {}).context.settings.validity] := by decide +kernel
  obtain ⟨r, hr, httls⟩ := Option.map_eq_some_iff.mp hn
  have hg : (resolve nestedRouters "/").Gives (freshState {}) r
      (resolve nestedRouters "/" (freshState {})).2 := Prod.ext (eq_ok_of_toOption hr) rfl
  obtain ⟨hkept, hscoped⟩ := ttl_scoped nestedRouters "/" (freshState {})
  exact ⟨r, _, hg, httls, hkept, hscoped r _ hg⟩

end Assembly

end RequestRouting
