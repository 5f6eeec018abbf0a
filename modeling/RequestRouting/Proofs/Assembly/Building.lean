import RequestRouting.Proofs.Assembly.Actions
import RequestRouting.Proofs.Serving.Links

/-!
# What an application that's being assembled refers to

While its nodes are resolved, the slots of an application aren't bound yet, and the handlers refer
to nothing but what the context knows: the slots of the manual and the template resource, the slot
of the application, and the entries of the dispatch table.
-/

namespace RequestRouting

/-- The entry of a dispatch table with the given name. -/
def DispatchTable.entry? (t : DispatchTable) (name : String) : Option DispatchTable.Entry :=
  t.entries.find? (·.target.name = name)

/-- Whether a link leads to what a context knows. -/
def Context.Knows (c : Context) : Link → Prop
  | .slot place => c.manual.map (·.slot) = some place ∨ c.templates.map (·.slot) = some place
  | .capture _ application => application = c.application
  | .dispatch d table application => application = c.application ∧ table = c.table ∧
    ∃ entry, c.dispatch.entry? d.dispatcher = some entry ∧ entry.referenced = true ∧
      d.resources = entry.target.resources

theorem Context.knows_concat {c : Context} {others : List Link} {link : Link}
    (ho : ∀ other ∈ others, c.Knows other) (h : c.Knows link) :
    ∀ other ∈ others ++ [link], c.Knows other :=
  List.forall_mem_append.mpr ⟨ho, List.forall_mem_singleton.mpr h⟩

/-- What the handler of a node refers to. -/
def Resolved.links (r : Resolved) : List Link := r.toHandler.links

theorem Handler.mem_linksAll {handlers : List Handler} {link : Link} :
    link ∈ linksAll handlers ↔ ∃ h ∈ handlers, link ∈ h.links := by
  induction handlers with
  | nil => simp [linksAll]
  | cons h rest ih => simp [linksAll, ih]

theorem Handler.linksAll_append (a b : List Handler) :
    linksAll (a ++ b) = linksAll a ++ linksAll b := by
  induction a with
  | nil => rfl
  | cons h rest ih => rw [List.cons_append, linksAll, linksAll, ih, List.append_assoc]

namespace DispatchTable

variable {t : DispatchTable} {name : String}

/-- Referring to a dispatcher keeps all others in the table. -/
theorem find?_mark {l : List Entry} {entry : Entry}
    (h : l.find? (·.target.name = name) = some entry) (other : String) :
    ∃ entry', (mark other l).find? (·.target.name = name) = some entry' ∧
      entry'.target = entry.target ∧ (entry.referenced = true → entry'.referenced = true) := by
  induction l with
  | nil => cases h
  | cons first rest ih =>
    rw [List.find?_cons] at h
    rw [mark]
    cases hn : decide (first.target.name = name) with
    | true =>
      rw [hn] at h
      obtain rfl := Option.some.inj h
      split
      · exact ⟨{ first with referenced := true }, by simp [hn], rfl, fun _ => rfl⟩
      · exact ⟨first, by simp [hn], rfl, id⟩
    | false =>
      rw [hn] at h
      split
      · exact ⟨entry, by simpa [List.find?_cons, hn] using h, rfl, id⟩
      · simpa [List.find?_cons, hn] using ih h

/-- A dispatcher that was referred to is in the table, marked as referenced. -/
theorem find?_mark_self (name : String) (l : List Entry) :
    ∃ entry, (mark name l).find? (·.target.name = name) = some entry ∧
      entry.referenced = true := by
  induction l with
  | nil => exact ⟨_, by simp [mark, DispatchTarget.ofDispatcher]; rfl, rfl⟩
  | cons first rest ih =>
    rw [mark]
    split
    · rename_i hn
      exact ⟨{ first with referenced := true }, by simp [hn], rfl⟩
    · rename_i hn
      obtain ⟨entry, he, hr⟩ := ih
      exact ⟨entry, by simp [hn, he], hr⟩

theorem uri_of_mem_mark {l : List Entry} (h : ∀ entry ∈ l, entry.target.uri = none)
    (name : String) : ∀ entry ∈ mark name l, entry.target.uri = none := by
  induction l with
  | nil => simp [mark, DispatchTarget.ofDispatcher]
  | cons first rest ih =>
    obtain ⟨hfirst, hrest⟩ := List.forall_mem_cons.mp h
    rw [mark]
    split
    · exact List.forall_mem_cons.mpr ⟨hfirst, hrest⟩
    · exact List.forall_mem_cons.mpr ⟨hfirst, ih hrest⟩

end DispatchTable

namespace Assembly

/-- A state in which an application is being assembled that was begun in the given world. -/
structure State.Building (w₀ : World) (s : State) : Prop where
  slots : ∃ count, s.world.slots = w₀.slots ++ Array.replicate (count + 1) .unbound
  tables : s.world.tables = w₀.tables.push {}
  applications : s.world.applications = w₀.applications
  application : s.context.application = w₀.slots.size
  table : s.context.table = w₀.tables.size
  manual : ∀ m, s.context.manual = some m →
    w₀.slots.size < m.slot ∧ m.slot < s.world.slots.size
  templates : ∀ t, s.context.templates = some t →
    w₀.slots.size < t.slot ∧ t.slot < s.world.slots.size
  distinct : ∀ m t, s.context.manual = some m → s.context.templates = some t → m.slot ≠ t.slot
  uris : ∀ entry ∈ s.context.dispatch.entries, entry.target.uri = none
  prebuilt : s.context.prebuilt = []

variable {α β : Type} {w₀ : World} {known more : List Link}

/-- An action that succeeds goes on with the application, and what was known is known afterwards. If
the given links were, so are those that it yields. -/
def Yields (w₀ : World) (known : List Link) (x : Assembly α) (yielded : α → List Link) : Prop :=
  ∀ others s a t, x.Gives s a t → s.Building w₀ →
    (∀ link ∈ others ++ known, s.context.Knows link) →
      t.Building w₀ ∧ ∀ link ∈ others ++ yielded a, t.context.Knows link

namespace Yields

theorem bind {x : Assembly α} {f : α → Assembly β} {mid : α → List Link} {last : β → List Link}
    (hx : Yields w₀ known x mid) (hf : ∀ a, Yields w₀ (mid a) (f a) last) :
    Yields w₀ known (x >>= f) last := by
  intro others s b t h hs hk
  obtain ⟨a, u, ha, hb⟩ := gives_bind.mp h
  obtain ⟨hu, hmid⟩ := hx others s a u ha hs hk
  exact hf a others u b t hb hu hmid

/-- What an action doesn't need is still known afterwards. -/
theorem frame {x : Assembly α} {last : α → List Link} (hx : Yields w₀ known x last)
    (more : List Link) : Yields w₀ (more ++ known) x fun a => more ++ last a := by
  intro others s a t h hs hk
  rw [← List.append_assoc] at hk ⊢
  exact hx (others ++ more) s a t h hs hk

theorem pure {a : α} {last : α → List Link} (h : ∀ link ∈ last a, link ∈ known) :
    Yields w₀ known (Pure.pure a) last := by
  intro others s b t hg hs hk
  obtain ⟨rfl, rfl⟩ := gives_pure.mp hg
  refine ⟨hs, fun link hl => hk link ?_⟩
  rcases List.mem_append.mp hl with hl | hl
  · exact List.mem_append_left _ hl
  · exact List.mem_append_right _ (h link hl)

theorem throw (e : Error) (last : α → List Link) :
    Yields w₀ known (MonadExcept.throw e : Assembly α) last :=
  fun _ _ _ _ h => absurd h gives_throw

theorem located {x : Assembly α} {last : α → List Link} (hx : Yields w₀ known x last)
    (uri : String) : Yields w₀ known (located uri x) last :=
  fun others s a t h => hx others s a t (gives_located.mp h)

theorem withTtl {x : Assembly α} {last : α → List Link} (hx : Yields w₀ known x last)
    (ttl : Option Duration) : Yields w₀ known (withTtl ttl x) last := by
  cases ttl with
  | none => exact hx
  | some ttl =>
    intro others s a t h hs hk
    obtain ⟨u, hu, rfl⟩ := gives_withTtl.mp h
    have hs' : State.Building w₀ { s with context.chainTtl := some ttl } := { hs with }
    obtain ⟨ht, hlinks⟩ := hx others _ a u hu hs' hk
    exact ⟨{ ht with }, hlinks⟩

end Yields

/-- An action that has no bearing on what is known. -/
def IsQuiet (w₀ : World) (x : Assembly α) : Prop := Yields w₀ [] x fun _ => []

theorem IsQuiet.andThen {x : Assembly α} {f : α → Assembly β} {last : β → List Link}
    (hx : IsQuiet w₀ x) (hf : ∀ a, Yields w₀ known (f a) last) :
    Yields w₀ known (x >>= f) last := by
  have hknown : Yields w₀ known x fun _ => known := by
    simpa using hx.frame known
  exact hknown.bind hf

theorem quiet_context : IsQuiet w₀ context := by
  intro others s c t h hs hk
  obtain ⟨-, rfl⟩ := gives_context.mp h
  exact ⟨hs, hk⟩

theorem quiet_get : IsQuiet w₀ (get : Assembly State) := by
  intro others s u t h hs hk
  obtain ⟨-, rfl⟩ := gives_get.mp h
  exact ⟨hs, hk⟩

theorem quiet_pure (a : α) : IsQuiet w₀ (pure a : Assembly α) := .pure (by simp)

/-- What is added to the world has no bearing on what is known, slots and tables apart. -/
theorem quiet_add {f : World → Nat × World} (hf : ∀ w : World, w.SameHandlers (f w).2) :
    IsQuiet w₀ (add f) := by
  intro others s place t h hs hk
  obtain ⟨-, rfl⟩ := gives_add.mp h
  obtain ⟨hslots, htables, happs⟩ := hf s.world
  refine ⟨⟨?_, ?_, ?_, hs.application, hs.table, ?_, ?_, hs.distinct, hs.uris, hs.prebuilt⟩, hk⟩
  · exact hslots ▸ hs.slots
  · exact htables ▸ hs.tables
  · exact happs ▸ hs.applications
  · exact hslots ▸ hs.manual
  · exact hslots ▸ hs.templates

theorem quiet_hide (uri : String) : IsQuiet w₀ (hide uri) := by
  intro others s u t h hs hk
  obtain rfl := gives_modifyContext.mp h
  exact ⟨{ hs with }, hk⟩

/-! What the actions yield that add links. -/

theorem State.Building.addSlot {s : State} (hs : s.Building w₀) :
    State.Building w₀ { s with world := s.world.addSlot.2 } ∧
      w₀.slots.size < s.world.slots.size := by
  obtain ⟨count, hc⟩ := hs.slots
  have hsize : s.world.slots.size = w₀.slots.size + (count + 1) := by simp [hc]
  have hpush : s.world.addSlot.2.slots.size = s.world.slots.size + 1 := by simp [World.addSlot]
  refine ⟨{ hs with slots := ?_, manual := ?_, templates := ?_ }, by omega⟩
  · refine ⟨count + 1, ?_⟩
    rw [World.addSlot, hc, Array.replicate_succ (n := count + 1), Array.append_push]
  · intro m hm
    obtain ⟨hlo, hhi⟩ := hs.manual m hm
    exact ⟨hlo, hpush ▸ Nat.lt_succ_of_lt hhi⟩
  · intro t ht
    obtain ⟨hlo, hhi⟩ := hs.templates t ht
    exact ⟨hlo, hpush ▸ Nat.lt_succ_of_lt hhi⟩

theorem yields_registerManual (node : ManualNode) :
    Yields w₀ [] (registerManual node) fun place => [.slot place] := by
  intro others s place t h hs hk
  rw [List.append_nil] at hk
  simp only [registerManual, gives_bind, gives_context] at h
  obtain ⟨c, _, ⟨rfl, rfl⟩, h⟩ := h
  cases hm : s.context.manual with
  | some m =>
    simp only [hm] at h
    split at h
    · obtain ⟨rfl, rfl⟩ := gives_pure.mp h
      exact ⟨hs, Context.knows_concat hk (Or.inl (by rw [hm]; rfl))⟩
    · exact absurd h gives_throw
  | none =>
    simp only [hm, gives_bind, gives_add, gives_modifyContext, gives_pure] at h
    obtain ⟨slot, _, ⟨rfl, rfl⟩, _, _, rfl, rfl, rfl⟩ := h
    obtain ⟨hs', hlt⟩ := hs.addSlot
    refine ⟨{ hs' with manual := ?_, distinct := ?_ },
      Context.knows_concat (fun link hl => ?_) (Or.inl rfl)⟩
    · rintro m ⟨⟩
      exact ⟨hlt, by simp [World.addSlot]⟩
    · rintro m t ⟨⟩ ht
      have := (hs.templates t ht).2
      exact Nat.ne_of_gt this
    · have hlink := hk link hl
      cases link with
      | slot place =>
        rcases hlink with hp | hp
        · rw [hm] at hp
          cases hp
        · exact Or.inr hp
      | capture c application => exact hlink
      | dispatch d table application => exact hlink

theorem yields_registerTemplates (node : TemplatesNode) :
    Yields w₀ [] (registerTemplates node) fun place => [.slot place] := by
  intro others s place t h hs hk
  rw [List.append_nil] at hk
  simp only [registerTemplates, gives_bind, gives_context] at h
  obtain ⟨c, _, ⟨rfl, rfl⟩, h⟩ := h
  cases ht : s.context.templates with
  | some existing =>
    simp only [ht] at h
    split at h
    · obtain ⟨rfl, rfl⟩ := gives_pure.mp h
      exact ⟨hs, Context.knows_concat hk (Or.inr (by rw [ht]; rfl))⟩
    · exact absurd h gives_throw
  | none =>
    simp only [ht, gives_bind, gives_add, gives_modifyContext, gives_pure] at h
    obtain ⟨slot, _, ⟨rfl, rfl⟩, _, _, rfl, rfl, rfl⟩ := h
    obtain ⟨hs', hlt⟩ := hs.addSlot
    refine ⟨{ hs' with templates := ?_, distinct := ?_ },
      Context.knows_concat (fun link hl => ?_) (Or.inr rfl)⟩
    · rintro t ⟨⟩
      exact ⟨hlt, by simp [World.addSlot]⟩
    · rintro m t hm ⟨⟩
      have := (hs.manual m hm).2
      exact Nat.ne_of_lt this
    · have hlink := hk link hl
      cases link with
      | slot place =>
        rcases hlink with hp | hp
        · exact Or.inl hp
        · rw [ht] at hp
          cases hp
      | capture c application => exact hlink
      | dispatch d table application => exact hlink

/-- A capture refers to the slot of the application it's in. -/
theorem yields_capture (c : Capture) : Yields w₀ []
    (do return Resolved.handler (.capture c (← context).application)) Resolved.links := by
  intro others s r t h hs hk
  rw [List.append_nil] at hk
  simp only [gives_bind, gives_context, gives_pure] at h
  obtain ⟨_, _, ⟨rfl, rfl⟩, rfl, rfl⟩ := h
  exact ⟨hs, Context.knows_concat hk rfl⟩

theorem yields_resolveCapture (node : CaptureNode) :
    Yields w₀ [] (resolveCapture node) Resolved.links := by
  unfold resolveCapture
  dsimp only
  split
  · exact (quiet_hide _).andThen fun _ => yields_capture _
  · exact yields_capture _

theorem yields_resolveRedirect (node : RedirectNode) :
    Yields w₀ [] (resolveRedirect node) Resolved.links := by
  unfold resolveRedirect
  split
  · exact .pure (by simp [Resolved.links, Resolved.toHandler, Handler.links])
  · exact yields_capture _

theorem yields_resolveDispatch (node : DispatchNode) :
    Yields w₀ [] (resolveDispatch node) Resolved.links := by
  intro others s r t h hs hk
  rw [List.append_nil] at hk
  simp only [resolveDispatch, gives_bind, gives_context, gives_modifyContext, gives_pure] at h
  obtain ⟨c, _, ⟨rfl, rfl⟩, _, _, rfl, rfl, rfl⟩ := h
  refine ⟨{ hs with uris := DispatchTable.uri_of_mem_mark hs.uris _ },
    Context.knows_concat (fun link hl => ?_) ?_⟩
  · have hlink := hk link hl
    cases link with
    | slot place => exact hlink
    | capture c application => exact hlink
    | dispatch d table application =>
      obtain ⟨ha, ht, entry, hentry, href, hres⟩ := hlink
      obtain ⟨entry', hentry', htarget, href'⟩ := DispatchTable.find?_mark hentry
        (node.dispatcher.getD s.context.dispatch.defaultName)
      exact ⟨ha, ht, entry', hentry', href' href, by rw [htarget]; exact hres⟩
  · obtain ⟨entry, hentry, href⟩ := DispatchTable.find?_mark_self
      (node.dispatcher.getD s.context.dispatch.defaultName) s.context.dispatch.entries
    refine ⟨rfl, rfl, entry, hentry, href, ?_⟩
    simp only [DispatchTable.get?, DispatchTable.reference, hentry]
    rfl

theorem yields_chainOf (ttl : Duration) (handlers : List Handler) :
    Yields w₀ (Handler.linksAll handlers) (chainOf ttl handlers) Handler.links := by
  unfold chainOf
  split
  · exact .pure (by simp [Handler.notFound, Handler.links])
  · exact .pure (by simp [Handler.linksAll])
  · exact (quiet_add fun _ => ⟨rfl, rfl, rfl⟩).andThen fun _ => .pure (by simp [Handler.links])

theorem yields_compressed (isCompressed : Bool) (handler : Handler) :
    Yields w₀ handler.links (compressed isCompressed handler) Handler.links := by
  unfold compressed
  split
  · exact quiet_context.andThen fun _ => .pure (by simp [Handler.links, Middleware.links])
  · exact .pure (by simp)

theorem yields_resolveStatic (node : StaticNode) :
    Yields w₀ [] (resolveStatic node) Resolved.links := by
  have hroots : Yields w₀ [] (staticRoots node) Handler.linksAll := by
    refine quiet_get.andThen fun s => .pure ?_
    intro link hl
    obtain ⟨h, hm, hlink⟩ := Handler.mem_linksAll.mp hl
    obtain ⟨root, -, hroot⟩ := List.mem_filterMap.mp hm
    obtain ⟨files, -, rfl⟩ := Option.map_eq_some_iff.mp hroot
    exact hlink
  refine quiet_context.andThen fun c => hroots.bind fun handlers => ?_
  refine (yields_chainOf _ handlers).bind fun handler => ?_
  exact (yields_compressed _ handler).bind fun handler => .pure fun _ hl => hl

theorem yields_attachResolved (route : Route) (router : Router) (handlers : List Handler)
    (resolved : Resolved) :
    Yields w₀ (Handler.linksAll handlers ++ resolved.links)
      (attachResolved route (router, handlers) resolved) fun p => Handler.linksAll p.2 := by
  cases resolved with
  | hidden => exact .pure fun link hl => List.mem_append_left _ hl
  | handler handler =>
    unfold attachResolved
    cases router.attach route with
    | error e => exact .throw _ _
    | ok r =>
      refine .pure fun link hl => ?_
      rw [Handler.linksAll_append] at hl
      simpa [Resolved.links, Resolved.toHandler, Handler.linksAll] using hl

theorem quiet_routeOf (text : String) : IsQuiet w₀ (routeOf text) := by
  unfold routeOf
  split
  · exact quiet_pure _
  · exact .throw _ _

theorem quiet_requireMode (mode : RoutingMode) : IsQuiet w₀ (requireMode mode) := by
  unfold requireMode
  split
  · exact .throw _ _
  · exact quiet_pure _

theorem quiet_compilerOf (pipeline : Pipeline) : IsQuiet w₀ (compilerOf pipeline) := by
  unfold compilerOf
  split
  · refine quiet_context.andThen fun c => ?_
    split
    · exact quiet_pure _
    · exact .throw _ _
  · exact quiet_pure _

/-- The handler behind a middleware that refers to nothing is what is referred to. -/
theorem yields_layer {x : Assembly Middleware} (hx : IsQuiet w₀ x)
    (hm : ∀ s middleware t, x.Gives s middleware t → middleware.links = []) (next : Resolved) :
    Yields w₀ next.links (do return .handler (.layer (← x) next.toHandler)) Resolved.links := by
  intro others s r t h hs hk
  simp only [gives_bind, gives_pure] at h
  obtain ⟨middleware, u, hu, rfl, rfl⟩ := h
  obtain ⟨ht, hlinks⟩ := hx.frame next.links others s middleware u hu hs (by simpa using hk)
  refine ⟨ht, ?_⟩
  simpa [Resolved.links, Resolved.toHandler, Handler.links, hm _ _ _ hu] using hlinks

end Assembly

open Assembly

variable {w₀ : World} {prebuilt : ResolvePrebuilt}

mutual

/-- Resolving a descriptor yields a handler that refers to what the context knows. -/
theorem Descriptor.yields_resolve
    (hp : ∀ name uri, Yields w₀ [] (prebuilt name uri) Resolved.links) :
    (d : Descriptor) → (uri : String) → Yields w₀ [] (d.resolve prebuilt uri) Resolved.links
  | .hidden, _ => by
    rw [Descriptor.resolve]
    exact .pure (by simp [Resolved.links, Resolved.toHandler, Handler.notFound, Handler.links])
  | .chain nodes, uri => by
    rw [Descriptor.resolve]
    refine quiet_context.andThen fun c => (yields_resolveAll hp nodes uri).bind fun handlers => ?_
    exact (yields_chainOf _ handlers).bind fun handler => .pure fun _ hl => hl
  | .node n, uri => by
    rw [Descriptor.resolve]
    exact n.yields_resolve hp uri
  | .prebuilt name, uri => by
    rw [Descriptor.resolve]
    exact hp name uri
  termination_by structural d => d

theorem yields_resolveAll
    (hp : ∀ name uri, Yields w₀ [] (prebuilt name uri) Resolved.links) :
    (nodes : List Descriptor) → (uri : String) →
      Yields w₀ [] (resolveAll prebuilt nodes uri) Handler.linksAll
  | [], _ => by
    rw [resolveAll]
    exact .pure (by simp [Handler.linksAll])
  | d :: rest, uri => by
    rw [resolveAll]
    refine (d.yields_resolve hp uri).bind fun resolved => ?_
    cases resolved with
    | hidden => exact yields_resolveAll hp rest uri
    | handler handler =>
      have hrest := (yields_resolveAll hp rest uri).frame handler.links
      rw [List.append_nil] at hrest
      exact hrest.bind fun handlers => .pure fun _ hl => hl
  termination_by structural l => l

theorem yields_resolveRoutes
    (hp : ∀ name uri, Yields w₀ [] (prebuilt name uri) Resolved.links) :
    (entries : List (String × Descriptor)) → (uri : String) → (router : Router × List Handler) →
      Yields w₀ (Handler.linksAll router.2) (resolveRoutes prebuilt entries uri router)
        fun p => Handler.linksAll p.2
  | [], _, router => by
    rw [resolveRoutes]
    exact .pure fun _ hl => hl
  | (key, d) :: rest, uri, (router, handlers) => by
    rw [resolveRoutes]
    refine IsQuiet.andThen ((quiet_routeOf _).located _) fun route => ?_
    have hd := ((d.yields_resolve hp (below uri (clean key))).located
      (below uri (clean key))).frame (Handler.linksAll handlers)
    rw [List.append_nil] at hd
    refine hd.bind fun resolved => ?_
    refine ((yields_attachResolved route router handlers resolved).located _).bind fun router => ?_
    exact yields_resolveRoutes hp rest uri router
  termination_by structural l => l

theorem yields_resolveOrdered
    (hp : ∀ name uri, Yields w₀ [] (prebuilt name uri) Resolved.links) :
    (routes : Ordered Descriptor) → (uri : String) → (mode : RoutingMode) →
      (ttl : Option Duration) →
      Yields w₀ [] (resolveOrdered prebuilt routes uri mode ttl) fun p => Handler.linksAll p.2
  | ⟨entries⟩, uri, mode, ttl => by
    rw [resolveOrdered]
    refine (quiet_requireMode mode).andThen fun _ => ?_
    refine (quiet_add fun _ => ⟨rfl, rfl, rfl⟩).andThen fun place => ?_
    exact (yields_resolveRoutes hp entries uri ({ mode, place }, [])).withTtl ttl
  termination_by structural routes => routes

theorem Node.yields_resolve
    (hp : ∀ name uri, Yields w₀ [] (prebuilt name uri) Resolved.links) :
    (n : Node) → (uri : String) → Yields w₀ [] (n.resolve prebuilt uri) Resolved.links
  | .static node, _ => by
    rw [Node.resolve]
    exact yields_resolveStatic node
  | .manual node, _ => by
    rw [Node.resolve]
    exact (yields_registerManual node).bind fun place => .pure fun _ hl => hl
  | .templates node, _ => by
    rw [Node.resolve]
    exact (yields_registerTemplates node).bind fun place => .pure fun _ hl => hl
  | .dispatch node, _ => by
    rw [Node.resolve]
    exact yields_resolveDispatch node
  | .capture node, _ => by
    rw [Node.resolve]
    exact yields_resolveCapture node
  | .redirect node, _ => by
    rw [Node.resolve]
    exact yields_resolveRedirect node
  | .addSlash, _ => by
    rw [Node.resolve]
    exact .pure fun _ hl => hl
  | .router ⟨routes, mode, ttl⟩, uri => by
    rw [Node.resolve]
    refine (yields_resolveOrdered hp routes uri mode ttl).bind fun p => .pure fun _ hl => hl
  | .chain ⟨nodes, ttl⟩, uri => by
    rw [Node.resolve]
    refine quiet_context.andThen fun c => (yields_resolveAll hp nodes uri).bind fun handlers => ?_
    exact (yields_chainOf _ handlers).bind fun handler => .pure fun _ hl => hl
  | .filter ⟨library, next⟩, uri => by
    rw [Node.resolve]
    refine (next.yields_resolve hp uri).bind fun next => ?_
    refine yields_layer (x := filterOf library) ?_ ?_ next
    · exact quiet_context.andThen fun _ => quiet_pure _
    · intro s middleware t h
      simp only [filterOf, gives_bind, gives_pure] at h
      obtain ⟨c, u, -, rfl, -⟩ := h
      rfl
  | .injector ⟨locals, next⟩, uri => by
    rw [Node.resolve]
    exact (next.yields_resolve hp uri).bind fun next => .pure fun _ hl => hl
  | .cacheControl ⟨mediaTypes, default, next⟩, uri => by
    rw [Node.resolve]
    exact (next.yields_resolve hp uri).bind fun next => .pure fun _ hl => hl
  | .cors ⟨allowOrigin, allowMethods, allowHeaders, maxAge, next⟩, uri => by
    rw [Node.resolve]
    exact (next.yields_resolve hp uri).bind fun next => .pure fun _ hl => hl
  | .basicAuth ⟨credentials, realm, next⟩, uri => by
    rw [Node.resolve]
    exact (next.yields_resolve hp uri).bind fun next => .pure fun _ hl => hl
  | .status node, _ => by
    rw [Node.resolve]
    split
    · exact .pure fun _ hl => hl
    · exact .throw _ _
  | .resource node, _ => by
    rw [Node.resolve]
    refine quiet_context.andThen fun c => ?_
    split
    · exact .pure fun _ hl => hl
    · exact .throw _ _
  | .assets pipeline ⟨roots, next, minify⟩, uri => by
    rw [Node.resolve]
    refine (quiet_compilerOf pipeline).andThen fun compiler => ?_
    refine (next.yields_resolve hp uri).bind fun next => ?_
    refine yields_layer (x := assetsOf pipeline compiler ⟨roots, _, minify⟩) ?_ ?_ next
    · exact quiet_context.andThen fun c => (quiet_add fun _ => ⟨rfl, rfl, rfl⟩).andThen fun _ =>
        quiet_pure _
    · intro s middleware t h
      simp only [assetsOf, gives_bind, gives_pure] at h
      obtain ⟨c, u, -, place, v, -, rfl, -⟩ := h
      rfl
  termination_by structural n => n

end

namespace Assembly

/-- Without prebuilt nodes, all of them are hidden. -/
theorem yields_resolvePrebuilt (fuel : Nat) (name uri : String) :
    Yields w₀ [] (resolvePrebuilt fuel name uri) Resolved.links := by
  cases fuel with
  | zero => exact .throw _ _
  | succ fuel =>
    intro others s r t h hs hk
    simp only [resolvePrebuilt, gives_bind, gives_context] at h
    obtain ⟨c, _, ⟨rfl, rfl⟩, h⟩ := h
    simp only [hs.prebuilt, List.find?_nil, gives_pure] at h
    obtain ⟨rfl, rfl⟩ := h
    exact ⟨hs, hk⟩

end Assembly

end RequestRouting
