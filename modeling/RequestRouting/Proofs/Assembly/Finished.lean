import RequestRouting.Proofs.Assembly.Building
import RequestRouting.Proofs.Assembly.Root

/-!
# What an assembled application consists of

Once all nodes are resolved, the slots of the manual and the template resource are bound to
resources that refer to nothing, the dispatch table is published, and the slot of the application is
bound to its root router. The parts of an assembled application are put down here, for whatever is
to be proved of applications as a whole.
-/

namespace RequestRouting

/-- The capture of the page that a configuration has for a status, without its mark. -/
def Config.page? (config : Config) (code : Nat) : Option Capture :=
  (config.errors.get? code).map fun uri => .ofUri ((Text.dropTail? "!" uri).getD uri)

namespace Assembly

variable {α β : Type} {w₀ : World} {s t : State}

/-- An action that succeeds changes nothing but the URIs that are to be hidden. -/
def OnlyHides (x : Assembly α) : Prop :=
  ∀ s a t, x.Gives s a t → ∃ hidden, t = { s with context.hidden := hidden }

namespace OnlyHides

theorem pure (a : α) : OnlyHides (Pure.pure a) := by
  intro s b t h
  obtain ⟨-, rfl⟩ := gives_pure.mp h
  exact ⟨s.context.hidden, rfl⟩

theorem throw (e : Error) : OnlyHides (MonadExcept.throw e : Assembly α) :=
  fun _ _ _ h => absurd h gives_throw

theorem throw_bind (e : Error) (f : α → Assembly β) :
    OnlyHides (MonadExcept.throw e >>= f) := by
  intro s b t h
  obtain ⟨a, u, ha, -⟩ := gives_bind.mp h
  exact absurd ha gives_throw

theorem bind {x : Assembly α} {f : α → Assembly β} (hx : OnlyHides x)
    (hf : ∀ a, OnlyHides (f a)) : OnlyHides (x >>= f) := by
  intro s b t h
  obtain ⟨a, u, ha, hb⟩ := gives_bind.mp h
  obtain ⟨first, rfl⟩ := hx s a u ha
  obtain ⟨second, rfl⟩ := hf a _ b t hb
  exact ⟨second, rfl⟩

theorem hide (uri : String) : OnlyHides (hide uri) := by
  intro s u t h
  exact ⟨_, (gives_modifyContext.mp h).symm⟩

theorem routeOf (text : String) : OnlyHides (routeOf text) := by
  unfold Assembly.routeOf
  split
  · exact .pure _
  · exact .throw _

theorem located {x : Assembly α} (hx : OnlyHides x) (uri : String) : OnlyHides (located uri x) :=
  fun s a t h => hx s a t (gives_located.mp h)

theorem errorPages (entries : List (Nat × String)) : OnlyHides (errorPages entries) := by
  induction entries with
  | nil => exact .pure _
  | cons entry rest ih =>
    obtain ⟨code, uri⟩ := entry
    simp only [Assembly.errorPages]
    have hrest (page : Capture) : OnlyHides
        (do return (← Assembly.errorPages rest).insert code page) := ih.bind fun _ => .pure _
    split
    · exact .throw_bind _ _
    · cases Text.dropTail? "!" uri with
      | none => exact hrest _
      | some target => exact (OnlyHides.hide target).bind fun _ => hrest _

theorem hideRoutes (router : Router) (uris : List String) : OnlyHides (hideRoutes router uris) := by
  unfold Assembly.hideRoutes
  induction uris generalizing router with
  | nil => exact .pure _
  | cons uri rest ih =>
    rw [List.foldlM_cons]
    refine OnlyHides.bind ?_ fun router => ih router
    exact ((OnlyHides.routeOf uri).located uri).bind fun _ => .pure _

end OnlyHides

theorem gives_documentRoot {root : Option String} {path : String}
    (h : (documentRoot root).Gives s path t) : s = t := by
  simp only [documentRoot, gives_bind, gives_get] at h
  obtain ⟨_, _, ⟨rfl, rfl⟩, h⟩ := h
  split at h
  · exact absurd h gives_throw
  · exact (gives_pure.mp h).2

theorem gives_compressed {isCompressed : Bool} {handler h : Handler}
    (hg : (compressed isCompressed handler).Gives s h t) :
    s = t ∧ (h = handler ∨ ∃ compress, h = .layer (.compress compress) handler) := by
  unfold compressed at hg
  split at hg
  · simp only [gives_bind, gives_context, gives_pure] at hg
    obtain ⟨c, _, ⟨-, rfl⟩, rfl, rfl⟩ := hg
    exact ⟨rfl, Or.inr ⟨_, rfl⟩⟩
  · obtain ⟨rfl, rfl⟩ := gives_pure.mp hg
    exact ⟨rfl, Or.inl rfl⟩

/-- Whether a handler is a document resource, possibly compressed. -/
def IsResource (d : Documents) (h : Handler) : Prop :=
  h = .documents d ∨ ∃ compress, h = .layer (.compress compress) (.documents d)

theorem IsResource.links_eq {d : Documents} {h : Handler} (hr : IsResource d h) : h.links = [] := by
  rcases hr with rfl | ⟨compress, rfl⟩ <;> rfl

/-- The manual resource gives access to documents of the libraries. -/
structure IsManual (c : Context) (node : ManualNode) (d : Documents) : Prop where
  passThroughs : d.passThroughs = node.passThroughs.getD []
  libraries : d.libraries = c.libraries
  registry : d.registry = c.registry
  purpose : d.purpose = .manual
  trailingSlash : d.trailingSlash = node.trailingSlashRequired.getD true

theorem gives_buildManual {node : ManualNode} {h : Handler}
    (hg : (buildManual node).Gives s h t) :
    t.context = s.context ∧ s.world.SameHandlers t.world ∧
      ∃ d, IsResource d h ∧ IsManual s.context node d := by
  simp only [buildManual, gives_bind, gives_context, gives_add] at hg
  obtain ⟨root, _, hroot, c, _, ⟨rfl, rfl⟩, place, _, ⟨rfl, rfl⟩, hg⟩ := hg
  obtain rfl := gives_documentRoot hroot
  obtain ⟨rfl, hr⟩ := gives_compressed hg
  exact ⟨rfl, ⟨rfl, rfl, rfl⟩, _, hr, ⟨rfl, rfl, rfl, rfl, rfl⟩⟩

theorem gives_buildTemplates {node : TemplatesNode} {h : Handler}
    (hg : (buildTemplates node).Gives s h t) :
    t.context = s.context ∧ s.world.SameHandlers t.world ∧ ∃ d, IsResource d h := by
  simp only [buildTemplates, gives_bind, gives_context, gives_add] at hg
  obtain ⟨root, _, hroot, c, _, ⟨rfl, rfl⟩, place, _, ⟨rfl, rfl⟩, hg⟩ := hg
  obtain rfl := gives_documentRoot hroot
  obtain ⟨rfl, hr⟩ := gives_compressed hg
  exact ⟨rfl, ⟨rfl, rfl, rfl⟩, _, hr⟩

/-- What is in the slots of a world in which an application is being finished that was begun in the
given world: the slot of the application isn't bound yet, and resources are in the others. -/
structure Fills (w₀ w : World) : Prop where
  kept : ∀ i, i < w₀.slots.size → w.slots[i]? = w₀.slots[i]?
  application : w.slots[w₀.slots.size]? = some .unbound
  resources : ∀ i, w₀.slots.size < i → ∀ x, w.slots[i]? = some x →
    x = .unbound ∨ ∃ h d, x = .owned h ∧ IsResource d h

theorem getElem?_updateSlot (w : World) (place : Nat) (change : Slot Handler → Slot Handler)
    (i : Nat) : (w.updateSlot place change).slots[i]? =
      if place = i then (w.slots[i]?).map change else w.slots[i]? := Array.getElem?_modify

namespace Fills

variable {w w' : World}

theorem of_building (hs : s.Building w₀) : Fills w₀ s.world := by
  obtain ⟨count, hc⟩ := hs.slots
  refine ⟨fun i hi => ?_, ?_, fun i hi x hx => ?_⟩
  · rw [hc, Array.getElem?_append_left hi]
  · rw [hc, Array.getElem?_append_right (Nat.le_refl _)]
    simp
  · rw [hc, Array.getElem?_append_right (Nat.le_of_lt hi)] at hx
    exact Or.inl (Array.eq_of_mem_replicate (Array.mem_of_getElem? hx))

theorem congr (h : Fills w₀ w) (hw : w.slots = w'.slots) : Fills w₀ w' := by
  obtain ⟨hk, ha, hr⟩ := h
  rw [hw] at hk ha hr
  exact ⟨hk, ha, hr⟩

/-- Binding a slot behind that of the application keeps what is in the others. -/
theorem bind (h : Fills w₀ w) {place : Nat} (hp : w₀.slots.size < place) {resource : Handler}
    {d : Documents} (hr : IsResource d resource) :
    Fills w₀ (w.updateSlot place (Slot.bind resource)) := by
  refine ⟨fun i hi => ?_, ?_, fun i hi x hx => ?_⟩
  · rw [getElem?_updateSlot, if_neg (by omega)]
    exact h.kept i hi
  · rw [getElem?_updateSlot, if_neg (by omega)]
    exact h.application
  · rw [getElem?_updateSlot] at hx
    split at hx
    · obtain ⟨y, hy, rfl⟩ := Option.map_eq_some_iff.mp hx
      rcases h.resources i hi y hy with rfl | ⟨h', d', rfl, hd⟩
      · exact Or.inr ⟨resource, d, rfl, hr⟩
      · exact Or.inr ⟨h', d', rfl, hd⟩
    · exact h.resources i hi x hx

end Fills

/-- What an application looks like once its resources are built, in a state that came from another
one in which its nodes had been resolved. -/
structure Finishes (w₀ : World) (s t : State) (mount : Option (String × Nat)) : Prop where
  fills : Fills w₀ t.world
  applications : t.world.applications = s.world.applications
  mount : mount = s.context.manual.map fun m => (m.config.mount, m.slot)
  context : ∃ dispatch, t.context = { s.context with dispatch }
  bound : ∀ place, s.context.Knows (.slot place) →
    ∃ h d, t.world.slots[place]? = some (.owned h) ∧ IsResource d h
  manual : ∀ m, s.context.manual = some m →
    t.context.dispatch = s.context.dispatch.bind m.config.mount ∧
    t.world.tables = s.world.tables.setIfInBounds s.context.table t.context.dispatch ∧
    ∃ h d, t.world.slots[m.slot]? = some (.owned h) ∧ IsResource d h ∧
      IsManual s.context (m.config.withTargets s.context.dispatch.referenced) d

/-- The template resource is built before the manual resource. -/
structure HasTemplates (w₀ : World) (s t : State) : Prop where
  context : t.context = s.context
  fills : Fills w₀ t.world
  tables : t.world.tables = s.world.tables
  applications : t.world.applications = s.world.applications
  bound : ∀ place, s.context.templates.map (·.slot) = some place →
    ∃ h d, t.world.slots[place]? = some (.owned h) ∧ IsResource d h
  unbound : ∀ m, s.context.manual = some m → t.world.slots[m.slot]? = some .unbound

theorem State.Building.getElem?_slots (hs : s.Building w₀) {place : Nat}
    (hlo : w₀.slots.size < place) (hhi : place < s.world.slots.size) :
    s.world.slots[place]? = some .unbound := by
  obtain ⟨count, hc⟩ := hs.slots
  rw [hc, Array.size_append, Array.size_replicate] at hhi
  rw [hc, Array.getElem?_append_right (Nat.le_of_lt hlo), Array.getElem?_replicate,
    if_pos (by omega)]

theorem hasTemplates_of_none (hs : s.Building w₀) (ht : s.context.templates = none) :
    HasTemplates w₀ s s := by
  refine ⟨rfl, .of_building hs, rfl, rfl, ?_, ?_⟩
  · rw [ht]
    rintro _ ⟨⟩
  · intro m hm
    obtain ⟨hlo, hhi⟩ := hs.manual m hm
    exact hs.getElem?_slots hlo hhi

theorem hasTemplates_of_gives (hs : s.Building w₀) {templates : Singleton TemplatesNode}
    (ht : s.context.templates = some templates) {u : State} {resource : Handler}
    (hr : (buildTemplates templates.config).Gives s resource u)
    (h : (Assembly.bind templates.slot resource).Gives u ⟨⟩ t) : HasTemplates w₀ s t := by
  obtain ⟨hcontext, hsame, d, hd⟩ := gives_buildTemplates hr
  obtain rfl := gives_modify.mp h
  obtain ⟨hlo, hhi⟩ := hs.templates templates ht
  have hfree : u.world.slots[templates.slot]? = some .unbound := by
    rw [← hsame.slots]
    exact hs.getElem?_slots hlo hhi
  have hfills := (Fills.of_building hs).congr hsame.slots
  refine ⟨hcontext, hfills.bind hlo hd, hsame.tables.symm, hsame.applications.symm, ?_, ?_⟩
  · rw [ht]
    rintro _ ⟨⟩
    refine ⟨resource, d, ?_, hd⟩
    rw [getElem?_updateSlot, if_pos rfl, hfree]
    rfl
  · intro m hm
    obtain ⟨hlo, hhi⟩ := hs.manual m hm
    rw [getElem?_updateSlot, if_neg (Ne.symm (hs.distinct m templates hm ht)), ← hsame.slots]
    exact hs.getElem?_slots hlo hhi

/-- Building the manual resource publishes the dispatch table. -/
theorem HasTemplates.finishes (hs : s.Building w₀) {u : State} (hu : HasTemplates w₀ s u)
    {m : Singleton ManualNode} (hm : s.context.manual = some m) {u₁ u₂ : State}
    {resource : Handler} (hp : (publishTargets m.config.mount).Gives u ⟨⟩ u₁)
    (hr : (buildManual (m.config.withTargets s.context.dispatch.referenced)).Gives u₁ resource u₂)
    (h : (Assembly.bind m.slot resource).Gives u₂ ⟨⟩ t) :
    Finishes w₀ s t (some (m.config.mount, m.slot)) := by
  simp only [publishTargets, gives_bind, gives_context, gives_modify] at hp
  obtain ⟨_, _, ⟨rfl, rfl⟩, rfl⟩ := hp
  obtain ⟨hcontext, hsame, d, hd, hmanual⟩ := gives_buildManual hr
  obtain rfl := gives_modify.mp h
  obtain ⟨hlo, -⟩ := hs.manual m hm
  have hslots : u.world.slots = u₂.world.slots := hsame.slots
  have hown : (u₂.world.updateSlot m.slot (Slot.bind resource)).slots[m.slot]? =
      some (.owned resource) := by
    rw [getElem?_updateSlot, if_pos rfl, ← hslots, hu.unbound m hm]
    rfl
  refine ⟨(hu.fills.congr hslots).bind hlo hd, hsame.applications.symm.trans hu.applications,
    by rw [hm]; rfl, ⟨_, hcontext.trans (by rw [hu.context])⟩, ?_, ?_⟩
  · rintro place (hp | hp)
    · rw [hm] at hp
      obtain rfl := Option.some.inj hp
      exact ⟨resource, d, hown, hd⟩
    · obtain ⟨templates, ht, rfl⟩ := Option.map_eq_some_iff.mp hp
      obtain ⟨h, d', hb, hd'⟩ := hu.bound _ hp
      refine ⟨h, d', ?_, hd'⟩
      rw [getElem?_updateSlot, if_neg (hs.distinct m templates hm ht), ← hslots, hb]
  · intro m' hm'
    obtain rfl : m = m' := Option.some.inj (hm.symm.trans hm')
    have hdispatch : u₂.context.dispatch = s.context.dispatch.bind m.config.mount := by
      rw [hcontext, hu.context]
    refine ⟨hdispatch, ?_, resource, d, hown, hd, ?_⟩
    · have htables : u₂.world.tables = u.world.tables.setIfInBounds u.context.table
          (u.context.dispatch.bind m.config.mount) := hsame.tables.symm
      change u₂.world.tables = s.world.tables.setIfInBounds s.context.table u₂.context.dispatch
      rw [htables, hu.tables, hdispatch, hu.context]
    · have hlibraries : u.context.libraries = s.context.libraries := by rw [hu.context]
      have hregistry : u.context.registry = s.context.registry := by rw [hu.context]
      exact ⟨hmanual.passThroughs, hmanual.libraries.trans hlibraries,
        hmanual.registry.trans hregistry, hmanual.purpose, hmanual.trailingSlash⟩

theorem HasTemplates.finishes_of_gives {mount : Option (String × Nat)} (hs : s.Building w₀)
    {u : State} (hu : HasTemplates w₀ s u) (h : (finishManual s.context).Gives u mount t) :
    Finishes w₀ s t mount := by
  unfold finishManual at h
  cases hm : s.context.manual with
  | none =>
    simp only [hm] at h
    split at h
    · obtain ⟨rfl, rfl⟩ := gives_pure.mp h
      refine ⟨hu.fills, hu.applications, by rw [hm]; rfl, ⟨_, hu.context⟩, ?_, ?_⟩
      · rintro place (hp | hp)
        · rw [hm] at hp
          cases hp
        · exact hu.bound place hp
      · intro m hm'
        rw [hm] at hm'
        cases hm'
    · exact absurd h gives_throw
  | some m =>
    simp only [hm, gives_bind, gives_pure] at h
    obtain ⟨_, u₁, hp, resource, u₂, hr, _, u₃, hb, rfl, rfl⟩ := h
    exact hu.finishes hs hm hp hr hb

/-- Building the resources of an application binds all slots its handlers stand for. -/
theorem finishes_of_gives {mount : Option (String × Nat)} (hs : s.Building w₀)
    (h : finish.Gives s mount t) : Finishes w₀ s t mount := by
  rw [finish_eq] at h
  simp only [gives_bind, gives_context] at h
  obtain ⟨c, _, ⟨rfl, rfl⟩, h⟩ := h
  cases ht : s.context.templates with
  | none =>
    simp only [ht] at h
    exact (hasTemplates_of_none hs ht).finishes_of_gives hs h
  | some templates =>
    simp only [ht, gives_bind] at h
    obtain ⟨resource, u₁, hr, _, u, hb, h⟩ := h
    exact (hasTemplates_of_gives hs ht hr hb).finishes_of_gives hs h

/-- An entry of a router for an entry of the route table that isn't hidden. -/
def IsEntry (config : Config) (e : Router.Entry) : Prop :=
  ∃ key d, (key, d) ∈ config.routes.entries ∧ d ≠ .hidden ∧
    Route.parse (clean key) = .ok e.route ∧ e.route.matcher = .ok e.matcher

theorem gives_attachResolved {route : Route} {r : Router} {handlers : List Handler}
    {handler : Handler} {p : Router × List Handler}
    (h : (attachResolved route (r, handlers) (.handler handler)).Gives s p t) :
    s = t ∧ p.2 = handlers ++ [handler] ∧
      ∃ matcher, route.matcher = .ok matcher ∧
        p.1 = { r with entries := r.entries ++ [⟨route, matcher⟩] } := by
  unfold attachResolved Router.attach at h
  cases hm : route.matcher with
  | error e => simp [hm, Except.map] at h
  | ok matcher =>
    simp only [hm, Except.map, gives_pure] at h
    obtain ⟨rfl, rfl⟩ := h
    exact ⟨rfl, rfl, matcher, rfl, rfl⟩

/-- The entries of the root router, one for each handler. -/
theorem entries_of_resolveRoutes {config : Config} {prebuilt : ResolvePrebuilt}
    {l : List (String × Descriptor)} {uri : String} {p q : Router × List Handler}
    (hl : ∀ entry ∈ l, entry ∈ config.routes.entries) (hn : p.1.entries.length = p.2.length)
    (he : ∀ e ∈ p.1.entries, IsEntry config e)
    (h : (resolveRoutes prebuilt l uri p).Gives s q t) :
    q.1.mode = p.1.mode ∧ q.1.entries.length = q.2.length ∧
      ∀ e ∈ q.1.entries, IsEntry config e := by
  induction l generalizing p s with
  | nil =>
    rw [resolveRoutes, gives_pure] at h
    rw [← h.1]
    exact ⟨rfl, hn, he⟩
  | cons entry rest ih =>
    obtain ⟨key, d⟩ := entry
    obtain ⟨r, handlers⟩ := p
    simp only [resolveRoutes, gives_bind, gives_located, gives_routeOf] at h
    obtain ⟨route, s₁, ⟨hroute, rfl⟩, resolved, s₂, hd, p', s₃, hattach, hrest⟩ := h
    have hrest' (hn' : p'.1.entries.length = p'.2.length)
        (he' : ∀ e ∈ p'.1.entries, IsEntry config e) :=
      ih (fun entry hm => hl entry (List.mem_cons_of_mem _ hm)) hn' he' hrest
    cases resolved with
    | hidden =>
      obtain ⟨rfl, -⟩ := gives_pure.mp hattach
      rw [← r.mode_hide route]
      refine hrest' ?_ ?_
      · rw [Router.entries_hide]
        exact hn
      · rw [Router.entries_hide]
        exact he
    | handler handler =>
      obtain ⟨-, hhandlers, matcher, hm, hr⟩ := gives_attachResolved hattach
      have hmode : p'.1.mode = r.mode := by rw [hr]
      rw [← hmode]
      refine hrest' ?_ ?_
      · rw [hr, hhandlers, List.length_append, List.length_append]
        exact congrArg (· + 1) hn
      · rw [hr]
        intro e hmem
        rcases List.mem_append.mp hmem with hmem | hmem
        · exact he e hmem
        · obtain rfl := List.mem_singleton.mp hmem
          refine ⟨key, d, hl _ List.mem_cons_self, ?_, hroute, hm⟩
          rintro rfl
          rw [Descriptor.resolve, gives_pure] at hd
          cases hd.1

/-- The error pages of an application are those of its configuration. -/
theorem get?_of_errorPages {config : Config} {pages : Keyed Nat Capture}
    (h : (errorPages config.errors.entries).Gives s pages t) (code : Nat) :
    pages.get? code = config.page? code := by
  unfold Config.page? Keyed.get?
  generalize config.errors.entries = entries at h
  induction entries generalizing s pages with
  | nil =>
    obtain ⟨rfl, -⟩ := gives_pure.mp h
    rfl
  | cons entry rest ih =>
    obtain ⟨code', uri⟩ := entry
    obtain ⟨u, more, hmore, rfl⟩ : ∃ u more, (errorPages rest).Gives u more t ∧
        pages = more.insert code' (.ofUri ((Text.dropTail? "!" uri).getD uri)) := by
      simp only [errorPages] at h
      split at h
      · simp at h
      · cases hm : Text.dropTail? "!" uri with
        | none =>
          simp only [hm, gives_bind, gives_pure] at h
          obtain ⟨more, u, hmore, rfl, rfl⟩ := h
          exact ⟨_, more, hmore, rfl⟩
        | some target =>
          simp only [hm, gives_bind, gives_pure] at h
          obtain ⟨_, v, -, more, u, hmore, rfl, rfl⟩ := h
          exact ⟨v, more, hmore, rfl⟩
    rw [Keyed.find?]
    by_cases hc : code = code'
    · subst hc
      rw [if_pos (by simp)]
      exact Keyed.get?_insert_self _ _ _
    · rw [if_neg (by simpa using hc)]
      exact (Keyed.get?_insert_of_ne _ hc _).trans (ih hmore)

/-- The parts of an assembled application: the handlers of its route table, the state after they
were resolved, and the one after its resources were built, and the root router with its handlers and
the error pages. -/
structure IsAssembled (w₀ : World) (config : Config) (app : Application) (t : State)
    (leaves : List Handler) (nodes done : State) (mount : Option (String × Nat)) (router : Router)
    (handlers : List Handler) (pages : Keyed Nat Capture) : Prop where
  building : nodes.Building w₀
  knows : ∀ link ∈ Handler.linksAll leaves, nodes.context.Knows link
  finishes : Finishes w₀ nodes done mount
  context : ∃ hidden, t.context = { done.context with hidden }
  world : t.world = done.world.updateSlot t.context.application
    (Slot.bindWeak (.router router handlers))
  root : app.handler = .layer .applicationRoot
    (rootHandler t.context.application (.router router handlers) pages)
  handlers : handlers = leaves ++ (mount.map fun (_, place) => Handler.slot place).toList
  pages : ∀ code, pages.get? code = config.page? code
  mode : router.mode = .best
  entries : ∃ table : List Router.Entry, table.length = leaves.length ∧
    (∀ e ∈ table, IsEntry config e) ∧ (mount = none → router.entries = table) ∧
    ∀ internal place, mount = some (internal, place) → ∃ e, router.entries = table ++ [e] ∧
      Route.parse (internal ++ "*") = .ok e.route ∧ e.route.matcher = .ok e.matcher

theorem entries_hideRoutes {r r' : Router} {uris : List String}
    (h : (Assembly.hideRoutes r uris).Gives s r' t) :
    r'.entries = r.entries ∧ r'.mode = r.mode := by
  induction uris generalizing r s with
  | nil =>
    simp only [Assembly.hideRoutes, List.foldlM_nil, gives_pure] at h
    obtain ⟨rfl, -⟩ := h
    exact ⟨rfl, rfl⟩
  | cons uri rest ih =>
    simp only [Assembly.hideRoutes, List.foldlM_cons, gives_bind, gives_located, gives_routeOf,
      gives_pure] at h
    obtain ⟨_, _, ⟨route, _, ⟨-, rfl⟩, rfl, rfl⟩, hrest⟩ := h
    obtain ⟨he, hm⟩ := ih hrest
    exact ⟨he.trans (r.entries_hide route), hm.trans (r.mode_hide route)⟩

/-- The manual resource is mounted behind all other routes. -/
theorem gives_mountManual {mount : Option (String × Nat)} {p q : Router × List Handler}
    (h : (mountManual p mount).Gives s q t) : s = t ∧ q.1.mode = p.1.mode ∧
      q.2 = p.2 ++ (mount.map fun (_, place) => Handler.slot place).toList ∧
      (mount = none → q.1.entries = p.1.entries) ∧
      ∀ internal place, mount = some (internal, place) → ∃ e, q.1.entries = p.1.entries ++ [e] ∧
        Route.parse (internal ++ "*") = .ok e.route ∧ e.route.matcher = .ok e.matcher := by
  cases mount with
  | none =>
    obtain ⟨rfl, rfl⟩ := gives_pure.mp h
    exact ⟨rfl, rfl, by simp, fun _ => rfl, by simp⟩
  | some mount =>
    obtain ⟨internal, place⟩ := mount
    obtain ⟨r, handlers⟩ := p
    simp only [mountManual, gives_bind, gives_routeOf, gives_pure] at h
    obtain ⟨route, _, ⟨hroute, rfl⟩, ⟨r', handlers'⟩, _, hattach, rfl, rfl⟩ := h
    obtain ⟨rfl, hhandlers, matcher, hm, hr⟩ := gives_attachResolved hattach
    dsimp only at hhandlers hr
    refine ⟨rfl, (r'.mode_hide route).trans (by rw [hr]), by rw [hhandlers]; rfl, by simp, ?_⟩
    rintro _ _ ⟨⟩
    exact ⟨⟨route, matcher⟩, (r'.entries_hide route).trans (by rw [hr]), hroute, hm⟩

/-- Every assembled application has these parts. -/
theorem exists_parts {config : Config} {app : Application} (hs : s.Building w₀)
    (h : (application config).Gives s app t) :
    ∃ leaves nodes done mount router handlers pages,
      IsAssembled w₀ config app t leaves nodes done mount router handlers pages := by
  simp only [application, gives_bind, gives_context, gives_modify, gives_pure] at h
  obtain ⟨_, _, ⟨rfl, rfl⟩, ⟨r₀, leaves⟩, s₁, hroutes, mount, s₂, hfinish, ⟨r₁, handlers⟩, s₃,
    hmount, pages, s₄, hpages, _, _, ⟨rfl, rfl⟩, r₂, s₅, hhide, _, _, rfl, rfl, rfl⟩ := h
  obtain ⟨hbuilding, hknows⟩ :=
    yields_resolveOrdered (yields_resolvePrebuilt _) config.routes "/" .best none [] _ _ _ hroutes
      hs (by simp)
  have hfinishes := finishes_of_gives hbuilding hfinish
  obtain ⟨hmode₀, htable⟩ : r₀.mode = .best ∧ r₀.entries.length = leaves.length ∧
      ∀ e ∈ r₀.entries, IsEntry config e := by
    cases he : config.routes with
    | mk entries =>
      rw [he] at hroutes
      simp only [resolveOrdered, gives_bind, gives_add] at hroutes
      obtain ⟨_, _, -, place, _, ⟨-, rfl⟩, hroutes⟩ := hroutes
      have hl : ∀ entry ∈ entries, entry ∈ config.routes.entries := by
        rw [he]
        exact fun _ hm => hm
      exact entries_of_resolveRoutes (p := ({ mode := .best, place }, [])) hl rfl (by simp) hroutes
  obtain ⟨hmounted, hmode₁, hhandlers, hentries⟩ := gives_mountManual hmount
  obtain rfl := hmounted
  obtain ⟨hidden, rfl⟩ := OnlyHides.errorPages _ _ _ _ hpages
  obtain ⟨hidden', rfl⟩ := OnlyHides.hideRoutes _ _ _ _ _ hhide
  obtain ⟨hentries₂, hmode₂⟩ := entries_hideRoutes hhide
  exact ⟨leaves, s₁, s₂, mount, r₂, handlers, pages, hbuilding, hknows, hfinishes, ⟨hidden', rfl⟩,
    rfl, rfl, hhandlers, get?_of_errorPages hpages, hmode₂.trans (hmode₁.trans hmode₀), r₀.entries,
    htable.1, htable.2,
    fun hm => hentries₂.trans (hentries.1 hm), fun internal place hm => by
      obtain ⟨e, he, hroute⟩ := hentries.2 internal place hm
      exact ⟨e, hentries₂.trans he, hroute⟩⟩

end Assembly

end RequestRouting
