import RequestRouting.Proofs.Assembly.Steps

/-!
# What assembling an application leaves alone

An application is assembled in a world that it adds to. Whether that succeeds or not, whatever was
in the world before is still there afterwards: slots are bound, and tables are published, only at
places that were added for the application.
-/

namespace RequestRouting

/-- Whether all items of an array are kept at their places in another one. -/
def KeepsItems {α : Type} (a b : Array α) : Prop := ∀ i < a.size, b[i]? = a[i]?

namespace KeepsItems

variable {α : Type} {a b : Array α}

theorem refl (a : Array α) : KeepsItems a a := fun _ _ => rfl

theorem size_le (h : KeepsItems a b) : a.size ≤ b.size := by
  refine Nat.le_of_not_lt fun hlt => ?_
  have hb := h b.size hlt
  rw [Array.getElem?_eq_none (Nat.le_refl _)] at hb
  exact Nat.not_le_of_lt hlt (Array.getElem?_eq_none_iff.mp hb.symm)

theorem push (h : KeepsItems a b) (item : α) : KeepsItems a (b.push item) := by
  intro i hi
  rw [Array.getElem?_push, if_neg (Nat.ne_of_lt (Nat.lt_of_lt_of_le hi h.size_le))]
  exact h i hi

theorem modify (h : KeepsItems a b) {place : Nat} (hp : a.size ≤ place) (f : α → α) :
    KeepsItems a (b.modify place f) := by
  intro i hi
  rw [Array.getElem?_modify, if_neg (Nat.ne_of_gt (Nat.lt_of_lt_of_le hi hp))]
  exact h i hi

theorem setIfInBounds (h : KeepsItems a b) {place : Nat} (hp : a.size ≤ place) (item : α) :
    KeepsItems a (b.setIfInBounds place item) := by
  intro i hi
  rw [Array.getElem?_setIfInBounds_ne (Nat.ne_of_gt (Nat.lt_of_lt_of_le hi hp))]
  exact h i hi

end KeepsItems

/-- Whether everything in a world is kept in another one, which may have more of it. -/
structure World.IsKept (w w' : World) : Prop where
  files : w'.files = w.files
  now : w'.now = w.now
  chance : w'.chance = w.chance
  chains : KeepsItems w.chains w'.chains
  turns : KeepsItems w.turns w'.turns
  lookups : KeepsItems w.lookups w'.lookups
  checks : KeepsItems w.checks w'.checks
  slots : KeepsItems w.slots w'.slots
  tables : KeepsItems w.tables w'.tables
  calls : KeepsItems w.calls w'.calls
  tallies : KeepsItems w.tallies w'.tallies
  applications : w'.applications = w.applications

namespace World.IsKept

variable {w w' : World}

theorem refl (w : World) : IsKept w w :=
  ⟨rfl, rfl, rfl, .refl _, .refl _, .refl _, .refl _, .refl _, .refl _, .refl _, .refl _, rfl⟩

theorem addChain (h : IsKept w w') : IsKept w w'.addChain.2 :=
  { h with chains := h.chains.push _ }

theorem addTurn (h : IsKept w w') : IsKept w w'.addTurn.2 := { h with turns := h.turns.push _ }

theorem addLookups (h : IsKept w w') : IsKept w w'.addLookups.2 :=
  { h with lookups := h.lookups.push _ }

theorem addChecks (h : IsKept w w') : IsKept w w'.addChecks.2 :=
  { h with checks := h.checks.push _ }

theorem addSlot (h : IsKept w w') : IsKept w w'.addSlot.2 := { h with slots := h.slots.push _ }

theorem addTable (h : IsKept w w') : IsKept w w'.addTable.2 :=
  { h with tables := h.tables.push _ }

theorem addCalls (h : IsKept w w') : IsKept w w'.addCalls.2 := { h with calls := h.calls.push _ }

theorem updateSlot (h : IsKept w w') {place : Nat} (hp : w.slots.size ≤ place)
    (change : Slot Handler → Slot Handler) : IsKept w (w'.updateSlot place change) :=
  { h with slots := h.slots.modify hp change }

theorem addLibraries (h : IsKept w w') (settings : Settings) (paths : List String) :
    IsKept w (Context.addLibraries settings paths w').2 := by
  induction paths generalizing w' with
  | nil => exact h
  | cons path rest ih => exact ih h.addLookups

end World.IsKept

/-- Whether the places a context refers to were added to a world. -/
structure Context.IsApart (w : World) (name : String) (c : Context) : Prop where
  name : c.name = name
  application : w.slots.size ≤ c.application
  table : w.tables.size ≤ c.table
  manual : ∀ m, c.manual = some m → w.slots.size ≤ m.slot
  templates : ∀ t, c.templates = some t → w.slots.size ≤ t.slot

namespace Assembly

variable {α β : Type} {w : World} {name : String}

/-- A state in which an application is assembled that leaves a world alone. -/
structure State.IsApart (w : World) (name : String) (s : State) : Prop where
  world : w.IsKept s.world
  context : s.context.IsApart w name

/-- Whether an action leaves a world alone, be it that it succeeds or fails. -/
def Keeps (w : World) (name : String) (x : Assembly α) : Prop :=
  ∀ s : State, s.IsApart w name → State.IsApart w name (x s).2

/-- No step of resolving gets at what was in the world before. -/
theorem isClosed_isApart : IsClosed fun s t => s.IsApart w name → t.IsApart w name where
  refl _ hs := hs
  trans h h' hs := h' (h hs)
  chain _ hs := ⟨hs.world.addChain, hs.context⟩
  turn _ hs := ⟨hs.world.addTurn, hs.context⟩
  checks _ hs := ⟨hs.world.addChecks, hs.context⟩
  calls _ hs := ⟨hs.world.addCalls, hs.context⟩
  manual s config _ hs := by
    -- The slot is a place of the world as it is now, and there are no less than in the beginning.
    refine ⟨hs.world.addSlot, { hs.context with manual := ?_ }⟩
    rintro m ⟨⟩
    exact hs.world.slots.size_le
  templates s config _ hs := by
    refine ⟨hs.world.addSlot, { hs.context with templates := ?_ }⟩
    rintro t ⟨⟩
    exact hs.world.slots.size_le
  dispatch _ _ hs := ⟨hs.world, { hs.context with }⟩
  hide _ _ hs := ⟨hs.world, { hs.context with }⟩
  chainTtl _ _ _ h hs :=
    have ht := h ⟨hs.world, { hs.context with }⟩
    ⟨ht.world, { ht.context with }⟩
  resolving _ _ _ h hs :=
    have ht := h ⟨hs.world, { hs.context with }⟩
    ⟨ht.world, { ht.context with }⟩

namespace Keeps

theorem pure (a : α) : Keeps w name (Pure.pure a : Assembly α) := isClosed_isApart.pure a

theorem throw (e : Error) : Keeps w name (MonadExcept.throw e : Assembly α) :=
  isClosed_isApart.throw e

theorem bind {x : Assembly α} {f : α → Assembly β} (hx : Keeps w name x)
    (hf : ∀ a, Keeps w name (f a)) : Keeps w name (x >>= f) := isClosed_isApart.bind hx hf

theorem ofContext {f : Context → Assembly α} (h : ∀ c, c.IsApart w name → Keeps w name (f c)) :
    Keeps w name (context >>= f) := fun s hs => h s.context hs.context s hs

theorem ofGet {f : State → Assembly α} (h : ∀ s, Keeps w name (f s)) :
    Keeps w name (get >>= f) := fun s hs => h s s hs

theorem modify {f : State → State} (h : ∀ s, s.IsApart w name → State.IsApart w name (f s)) :
    Keeps w name (modify f : Assembly PUnit) := h

theorem add {f : World → Nat × World} (h : ∀ w', w.IsKept w' → w.IsKept (f w').2) :
    Keeps w name (add f) := fun s hs => ⟨h s.world hs.world, hs.context⟩

theorem bindSlot {place : Nat} (hp : w.slots.size ≤ place) (handler : Handler) :
    Keeps w name (Assembly.bind place handler) :=
  fun _ hs => ⟨hs.world.updateSlot hp _, hs.context⟩

theorem located {x : Assembly α} (hx : Keeps w name x) (uri : String) :
    Keeps w name (located uri x) :=
  Leads.located (R := fun s t => s.IsApart w name → t.IsApart w name) hx uri

theorem foldlM {items : List β} {f : α → β → Assembly α} (h : ∀ a b, Keeps w name (f a b))
    (a : α) : Keeps w name (items.foldlM f a) := isClosed_isApart.foldlM h a

/-- A successful action leaves the world alone. -/
theorem gives {x : Assembly α} (hx : Keeps w name x) {s t : State} {a : α}
    (h : x.Gives s a t) (hs : s.IsApart w name) : t.IsApart w name :=
  Leads.gives (R := fun s t => s.IsApart w name → t.IsApart w name) hx h hs

end Keeps

/-- Resolving routes leaves the world alone, whether it succeeds or fails. -/
theorem keeps_resolveOrdered (fuel : Nat) (routes : Ordered Descriptor) (uri : String)
    (mode : RoutingMode) (ttl : Option Duration) :
    Keeps w name (resolveOrdered (resolvePrebuilt fuel) routes uri mode ttl) :=
  leads_resolveOrdered isClosed_isApart (leads_resolvePrebuilt isClosed_isApart fuel) routes uri
    mode ttl

theorem keeps_compressed (isCompressed : Bool) (handler : Handler) :
    Keeps w name (compressed isCompressed handler) := isClosed_isApart.compressed _ _

theorem keeps_hide (uri : String) : Keeps w name (hide uri) := fun s => isClosed_isApart.hide s uri

theorem keeps_routeOf (text : String) : Keeps w name (routeOf text) := isClosed_isApart.routeOf text

theorem keeps_attachResolved (route : Route) (router : Router × List Handler)
    (resolved : Resolved) : Keeps w name (attachResolved route router resolved) :=
  isClosed_isApart.attachResolved route router resolved

/-! The actions that follow once all nodes are resolved. -/

theorem keeps_documentRoot (root : Option String) : Keeps w name (documentRoot root) := by
  refine .ofGet fun s => ?_
  dsimp only
  split
  · exact .throw _
  · exact .pure _

theorem keeps_buildManual (node : ManualNode) : Keeps w name (buildManual node) := by
  refine (keeps_documentRoot node.root).bind fun root => .ofContext fun c _ => ?_
  exact (Keeps.add fun _ h => h.addLookups).bind fun _ => keeps_compressed _ _

theorem keeps_buildTemplates (node : TemplatesNode) : Keeps w name (buildTemplates node) := by
  refine (keeps_documentRoot node.root).bind fun root => .ofContext fun c _ => ?_
  exact (Keeps.add fun _ h => h.addLookups).bind fun _ => keeps_compressed _ _

theorem keeps_publishTargets (internal : String) : Keeps w name (publishTargets internal) := by
  refine .ofContext fun c hc => .modify fun s hs => ?_
  exact ⟨{ hs.world with tables := hs.world.tables.setIfInBounds hc.table _ }, { hc with }⟩

theorem keeps_finishManual {c : Context} (hc : c.IsApart w name) :
    Keeps w name (finishManual c) := by
  unfold finishManual
  cases hm : c.manual with
  | none =>
    dsimp only
    split
    · exact .pure _
    · exact .throw _
  | some manual =>
    refine (keeps_publishTargets _).bind fun _ => (keeps_buildManual _).bind fun handler => ?_
    exact (Keeps.bindSlot (hc.manual manual hm) handler).bind fun _ => .pure _

theorem keeps_finish : Keeps w name finish := by
  rw [finish_eq]
  refine .ofContext fun c hc => ?_
  cases ht : c.templates with
  | none => exact keeps_finishManual hc
  | some templates =>
    refine (keeps_buildTemplates _).bind fun handler => ?_
    exact (Keeps.bindSlot (hc.templates templates ht) handler).bind fun _ => keeps_finishManual hc

theorem keeps_errorPage (page : Nat × String) {rest : List (Nat × String)}
    (h : Keeps w name (errorPages rest)) : Keeps w name (do
      let marked := Text.dropTail? "!" page.2
      if let some uri := marked then hide uri
      return (← errorPages rest).insert page.1 (.ofUri (marked.getD page.2))) := by
  dsimp only
  split
  · exact (keeps_hide _).bind fun _ => h.bind fun _ => .pure _
  · exact h.bind fun _ => .pure _

theorem keeps_errorPages (pages : List (Nat × String)) : Keeps w name (errorPages pages) := by
  induction pages with
  | nil => exact .pure _
  | cons page rest ih =>
    rw [errorPages]
    split
    · exact .throw _
    · exact keeps_errorPage page ih

theorem keeps_hideRoutes (router : Router) (uris : List String) :
    Keeps w name (hideRoutes router uris) :=
  .foldlM (fun _ uri => ((keeps_routeOf uri).located uri).bind fun _ => .pure _) router

theorem keeps_mountManual (router : Router × List Handler) (mount : Option (String × Nat)) :
    Keeps w name (mountManual router mount) := by
  cases mount with
  | none => exact .pure _
  | some mount =>
    refine (keeps_routeOf _).bind fun route => ?_
    exact (keeps_attachResolved route router _).bind fun _ => .pure _

/-- Assembling an application leaves the world alone, whether it succeeds or fails. -/
theorem keeps_application (config : Config) : Keeps w name (application config) := by
  refine .ofContext fun c _ => ?_
  refine (keeps_resolveOrdered _ _ _ _ _).bind fun router => ?_
  refine keeps_finish.bind fun mount => (keeps_mountManual _ mount).bind fun router => ?_
  refine (keeps_errorPages _).bind fun pages => .ofContext fun c hc => ?_
  refine (keeps_hideRoutes _ _).bind fun router => ?_
  refine (Keeps.modify fun s hs => ?_).bind fun _ => .pure _
  exact ⟨hs.world.updateSlot hc.application _, hs.context⟩

/-- An application has the name it's assembled with. -/
theorem name_of_gives {config : Config} {s t : State} {app : Application}
    (h : (application config).Gives s app t) (hs : s.IsApart w name) : app.name = name := by
  simp only [application, gives_bind, gives_context, gives_modify, gives_pure] at h
  obtain ⟨_, _, ⟨rfl, rfl⟩, router, s₁, hroutes, mount, s₂, hfinish, mounted, s₃, hmount, pages,
    s₄, hpages, _, _, ⟨rfl, rfl⟩, hidden, s₅, -, _, _, rfl, rfl, rfl⟩ := h
  have h₁ := (keeps_resolveOrdered _ _ _ _ _).gives hroutes hs
  have h₂ := keeps_finish.gives hfinish h₁
  have h₃ := (keeps_mountManual router mount).gives hmount h₂
  have h₄ := (keeps_errorPages _).gives hpages h₃
  exact h₄.context.name

/-- A context is apart from the world it's created in. -/
theorem isApart_create (name root : String) (settings : Settings) (registry : Registry)
    (dispatchers : Dispatchers) (w : World) :
    State.IsApart w name
      { context := (Context.create name root settings registry dispatchers w).1
        world := (Context.create name root settings registry dispatchers w).2 } := by
  have hlibraries := (World.IsKept.refl w).addLibraries settings (settings.libraries root)
  have hmanual : (Context.create name root settings registry dispatchers w).1.manual = none := rfl
  have htemplates : (Context.create name root settings registry dispatchers w).1.templates = none :=
    rfl
  have hworld : w.IsKept (Context.create name root settings registry dispatchers w).2 :=
    hlibraries.addSlot.addTable
  refine ⟨hworld, rfl, hlibraries.slots.size_le, hlibraries.addSlot.tables.size_le, ?_, ?_⟩
  · simp [hmanual]
  · simp [htemplates]

end Assembly

end RequestRouting
