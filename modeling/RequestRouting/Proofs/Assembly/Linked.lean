import RequestRouting.Proofs.Assembly.Finished
import RequestRouting.Proofs.Route.Matcher

/-!
# Components and what their handlers refer to

Whatever applications are assembled in a component, all of their handlers lead to where they should:
slots to resources, which refer to nothing, and captures to root routers. Serving requests changes
neither.
-/

namespace RequestRouting

/-- Whether a link leads to a resource that refers to nothing, or to the root of an application. -/
def Link.IsResolved (w : World) : Link → Prop
  | .slot place => ∃ resource, w.slots[place]? = some (.owned resource) ∧ resource.links = []
  | .capture _ application => ∃ root, w.slots[application]? = some (.borrowed root)
  | .dispatch _ _ application => ∃ root, w.slots[application]? = some (.borrowed root)

theorem Link.isResolved_congr {w w' : World} (h : w.SameHandlers w') {link : Link} :
    link.IsResolved w' ↔ link.IsResolved w := by
  cases link <;> simp only [IsResolved, h.slots]

/-- The handlers that can be jumped to. -/
def World.handlers (w : World) : List Handler :=
  w.slots.toList.filterMap Slot.get? ++ w.applications.entries.map (·.2)

/-- The handlers of a virtual host. -/
def VirtualHost.handlers (h : VirtualHost) : List Handler := h.mounts.map (·.handler)

/-- The handlers of a component, and those that can be jumped to from them. -/
def Component.handlers (c : Component) (w : World) : List Handler :=
  (c.hosts.entries.flatMap fun (_, host) => host.handlers) ++ w.handlers

/-- Whether all links of all handlers are resolved. -/
def Component.IsLinked (c : Component) (w : World) : Prop :=
  ∀ h ∈ c.handlers w, ∀ link ∈ h.links, link.IsResolved w

/-- A component in a world, by the way it was built: by adding virtual hosts, by attaching handlers
that refer to what is there, and by assembling applications, with anything in between that leaves
the handlers as they are, such as serving requests, time, and changes of files. -/
inductive Component.IsBuilt : Component → World → Prop where
  | empty {w : World} (hs : w.slots = #[]) (ha : w.applications = {}) : IsBuilt .empty w
  | addHost {c : Component} {w : World} (h : IsBuilt c w) (name : String) :
      IsBuilt (c.addHost name) w
  | attach {c c' : Component} {w : World} (h : IsBuilt c w) {host path : String}
      {handler : Handler} (hl : ∀ link ∈ handler.links, link.IsResolved w)
      (hc : c.attach host path handler = .ok c') : IsBuilt c' w
  | assemble {c c' : Component} {w w' : World} (h : IsBuilt c w) {name root : String}
      {config : Config} {registry : Registry}
      (hc : c.assemble w name root config registry = .ok (c', w')) : IsBuilt c' w'
  | change {c : Component} {w w' : World} (h : IsBuilt c w) (hw : w.SameHandlers w') :
      IsBuilt c w'

theorem World.mem_handlers {w : World} {target : World.Target} {h : Handler}
    (hh : w.handler? target = some h) : h ∈ w.handlers := by
  cases target with
  | slot place =>
    obtain ⟨slot, hs, hg⟩ := Option.bind_eq_some_iff.mp hh
    refine List.mem_append_left _ (List.mem_filterMap.mpr ⟨slot, ?_, hg⟩)
    exact Array.mem_toList_iff.mpr (Array.mem_of_getElem? hs)
  | application name =>
    exact List.mem_append_right _ (List.mem_map.mpr ⟨_, Keyed.mem_of_find? hh, rfl⟩)

namespace Assembly

variable {w₀ : World}

/-- An application begins to be assembled with a slot for itself, and with a dispatch table. -/
theorem building_create (name root : String) (settings : Settings) (registry : Registry)
    (dispatchers : Dispatchers) (w : World) :
    State.Building w
      { context := (Context.create name root settings registry dispatchers w).1
        world := (Context.create name root settings registry dispatchers w).2 } := by
  have hlibraries (paths : List String) (w : World) :
      w.SameHandlers (Context.addLibraries settings paths w).2 := by
    induction paths generalizing w with
    | nil => exact .refl w
    | cons path rest ih =>
      have h := ih w.addLookups.2
      exact ⟨h.slots, h.tables, h.applications⟩
  obtain ⟨hslots, htables, happs⟩ := hlibraries (settings.libraries root) w
  have hmanual : (Context.create name root settings registry dispatchers w).1.manual = none := rfl
  have htemplates : (Context.create name root settings registry dispatchers w).1.templates = none :=
    rfl
  refine ⟨⟨0, ?_⟩, ?_, ?_, ?_, ?_, by simp [hmanual], by simp [htemplates], by simp [hmanual], ?_,
    rfl⟩
  · simp [Context.create, World.addSlot, World.addTable, hslots]
  · simp [Context.create, World.addSlot, World.addTable, htables]
  · simp [Context.create, World.addSlot, World.addTable, happs]
  · simp [Context.create, World.addSlot, hslots]
  · simp [Context.create, World.addSlot, World.addTable, htables]
  · intro entry hm
    obtain ⟨⟨name, dispatcher⟩, -, rfl⟩ := List.mem_map.mp hm
    rfl

section Parts

variable {config : Config} {app : Application} {t nodes done : State} {leaves : List Handler}
  {mount : Option (String × Nat)} {router : Router} {handlers : List Handler}
  {pages : Keyed Nat Capture}
  (h : IsAssembled w₀ config app t leaves nodes done mount router handlers pages)

include h

theorem IsAssembled.application_eq : t.context.application = w₀.slots.size := by
  obtain ⟨hidden, ht⟩ := h.context
  obtain ⟨dispatch, hd⟩ := h.finishes.context
  rw [ht, hd]
  exact h.building.application

/-- The slot of the application is the only one that changes in the end. -/
theorem IsAssembled.getElem?_slots (i : Nat) : t.world.slots[i]? =
    if w₀.slots.size = i then some (.borrowed (.router router handlers))
    else done.world.slots[i]? := by
  rw [h.world, getElem?_updateSlot, h.application_eq]
  split
  · rename_i hi
    rw [← hi, h.finishes.fills.application]
    rfl
  · rfl

/-- Resources are still in their slots in the end. -/
theorem IsAssembled.getElem?_owned {place : Nat} {resource : Handler}
    (hs : done.world.slots[place]? = some (.owned resource)) :
    t.world.slots[place]? = some (.owned resource) := by
  have hne : w₀.slots.size ≠ place := by
    rintro rfl
    rw [h.finishes.fills.application] at hs
    cases hs
  rw [h.getElem?_slots, if_neg hne, hs]

/-- The slots that a context knew are those of resources. -/
theorem IsAssembled.exists_resource {place : Nat} (hk : nodes.context.Knows (.slot place)) :
    ∃ resource d, t.world.slots[place]? = some (.owned resource) ∧ IsResource d resource := by
  obtain ⟨resource, d, hslot, hr⟩ := h.finishes.bound place hk
  exact ⟨resource, d, h.getElem?_owned hslot, hr⟩

/-- The manual resource in the end is the one that was known, and it's what is mounted. -/
theorem IsAssembled.mount_eq {m : Singleton ManualNode} (hm : t.context.manual = some m) :
    nodes.context.manual = some m ∧ mount = some (m.config.mount, m.slot) := by
  obtain ⟨hidden, ht⟩ := h.context
  obtain ⟨dispatch, hd⟩ := h.finishes.context
  rw [ht, hd] at hm
  refine ⟨hm, ?_⟩
  rw [h.finishes.mount, show nodes.context.manual = some m from hm]
  rfl

/-- The root router is in the slot of the application. -/
theorem IsAssembled.getElem?_application : t.world.slots[nodes.context.application]? =
    some (.borrowed (.router router handlers)) := by
  rw [h.getElem?_slots, if_pos h.building.application.symm]

/-- What a context knew is resolved. -/
theorem IsAssembled.isResolved {link : Link} (hk : nodes.context.Knows link) :
    link.IsResolved t.world := by
  cases link with
  | slot place =>
    obtain ⟨resource, d, hslot, hr⟩ := h.exists_resource hk
    exact ⟨resource, hslot, hr.links_eq⟩
  | capture c application =>
    obtain rfl := hk
    exact ⟨_, h.getElem?_application⟩
  | dispatch d table application =>
    obtain rfl := hk.1
    exact ⟨_, h.getElem?_application⟩

theorem IsAssembled.knows_handlers : ∀ link ∈ Handler.linksAll handlers,
    nodes.context.Knows link := by
  rw [h.handlers, Handler.linksAll_append]
  intro link hl
  rcases List.mem_append.mp hl with hl | hl
  · exact h.knows link hl
  · have hm := h.finishes.mount
    cases mount with
    | none => cases hl
    | some mount =>
      obtain ⟨m, hmanual, rfl⟩ := Option.map_eq_some_iff.mp hm.symm
      obtain rfl : link = .slot m.slot := by simpa [Handler.linksAll, Handler.links] using hl
      exact Or.inl (by rw [hmanual]; rfl)

theorem IsAssembled.knows_root : ∀ link ∈ app.handler.links, nodes.context.Knows link := by
  have happ : t.context.application = nodes.context.application :=
    h.application_eq.trans h.building.application.symm
  rw [h.root, rootHandler]
  intro link hl
  split at hl
  · exact h.knows_handlers link hl
  · rcases List.mem_append.mp hl with hl | hl
    · cases hl
    · rcases List.mem_append.mp hl with hl | hl
      · obtain ⟨page, -, rfl⟩ := List.mem_map.mp hl
        exact happ
      · exact h.knows_handlers link hl

end Parts

/-- The links of an assembled application are resolved, those of all handlers that were added for
it, and those of all handlers there were before. -/
theorem IsAssembled.isResolved_handlers {config : Config} {app : Application} {t nodes done : State}
    {leaves : List Handler} {mount : Option (String × Nat)} {router : Router}
    {handlers : List Handler} {pages : Keyed Nat Capture}
    (h : IsAssembled w₀ config app t leaves nodes done mount router handlers pages)
    (hw : ∀ x ∈ w₀.handlers, ∀ link ∈ x.links, link.IsResolved w₀) :
    t.world.applications = w₀.applications ∧
      (∀ link : Link, link.IsResolved w₀ → link.IsResolved t.world) ∧
      (∀ link ∈ app.handler.links, link.IsResolved t.world) ∧
      ∀ x ∈ t.world.handlers, ∀ link ∈ x.links, link.IsResolved t.world := by
  have happs : t.world.applications = w₀.applications := by
    rw [h.world]
    exact h.finishes.applications.trans h.building.applications
  have hslots {i : Nat} {x : Slot Handler} (hx : w₀.slots[i]? = some x) :
      t.world.slots[i]? = some x := by
    have hi : i < w₀.slots.size := (Array.getElem?_eq_some_iff.mp hx).1
    rw [h.getElem?_slots, if_neg (by omega), h.finishes.fills.kept i hi, hx]
  have hkept (link : Link) (hl : link.IsResolved w₀) : link.IsResolved t.world := by
    cases link with
    | slot place =>
      obtain ⟨resource, hs, hr⟩ := hl
      exact ⟨resource, hslots hs, hr⟩
    | capture c application =>
      obtain ⟨root, hs⟩ := hl
      exact ⟨root, hslots hs⟩
    | dispatch d table application =>
      obtain ⟨root, hs⟩ := hl
      exact ⟨root, hslots hs⟩
  refine ⟨happs, hkept, fun link hl => h.isResolved (h.knows_root link hl), fun x hx link hl => ?_⟩
  rcases List.mem_append.mp hx with hx | hx
  · obtain ⟨slot, hslot, hg⟩ := List.mem_filterMap.mp hx
    obtain ⟨i, hi⟩ := Array.getElem?_of_mem (Array.mem_toList_iff.mp hslot)
    rcases Nat.lt_trichotomy i w₀.slots.size with hlt | rfl | hgt
    · -- The slot was there before.
      rw [h.getElem?_slots, if_neg (by omega), h.finishes.fills.kept i hlt] at hi
      refine hkept link (hw x ?_ link hl)
      have hhandler : w₀.handler? (.slot i) = some x := by simp [World.handler?, hi, hg]
      exact World.mem_handlers hhandler
    · rw [h.getElem?_slots, if_pos rfl] at hi
      obtain rfl := Option.some.inj hi
      obtain rfl := Option.some.inj hg
      exact h.isResolved (h.knows_handlers link hl)
    · rw [h.getElem?_slots, if_neg (by omega)] at hi
      rcases h.finishes.fills.resources i hgt slot hi with rfl | ⟨resource, d, rfl, hr⟩
      · cases hg
      · obtain rfl := Option.some.inj hg
        rw [hr.links_eq] at hl
        cases hl
  · rw [happs] at hx
    exact hkept link (hw x (List.mem_append_right _ hx) link hl)

end Assembly

/-! The handlers of a component after each way to build it. -/

theorem VirtualHost.mem_add {h : VirtualHost} {mount m : Mount} (hm : m ∈ (h.add mount).mounts) :
    m = mount ∨ m ∈ h.mounts := by
  rcases List.mem_append.mp hm with hm | hm
  · exact Or.inr (List.takeWhile_subset _ hm)
  · rcases List.mem_cons.mp hm with hm | hm
    · exact Or.inl hm
    · exact Or.inr (List.dropWhile_subset _ hm)

/-- What two steps yield is what the second one makes of the value of the first one. -/
theorem exists_of_bind_ok {ε α β : Type} {x : Except ε α} {f : α → Except ε β} {b : β}
    (h : x >>= f = .ok b) : ∃ a, x = .ok a ∧ f a = .ok b := by
  cases x with
  | error e => cases h
  | ok a => exact ⟨a, rfl, h⟩

/-- A handler at a mount point refers to what it refers to elsewhere. -/
theorem Mount.links_of_ofPath {path : String} {handler : Handler} {m : Mount}
    (h : Mount.ofPath path handler = .ok m) : m.handler.links = handler.links := by
  obtain ⟨base, -, hm⟩ := exists_of_bind_ok h
  obtain rfl := Except.ok.inj hm
  rfl

namespace Component

variable {c c' : Component} {w w' : World}

/-- A mount of a component. -/
def HasMount (c : Component) (m : Mount) : Prop :=
  ∃ host ∈ c.hosts.entries, m ∈ host.2.mounts

theorem mem_handlers_iff {h : Handler} : h ∈ c.handlers w ↔
    (∃ m, c.HasMount m ∧ m.handler = h) ∨ h ∈ w.handlers := by
  rw [handlers, List.mem_append, List.mem_flatMap]
  refine or_congr_left ⟨?_, ?_⟩
  · rintro ⟨⟨name, host⟩, hh, hm⟩
    obtain ⟨m, hm', rfl⟩ := List.mem_map.mp hm
    exact ⟨m, ⟨(name, host), hh, hm'⟩, rfl⟩
  · rintro ⟨m, ⟨host, hh, hm⟩, rfl⟩
    exact ⟨host, hh, List.mem_map_of_mem hm⟩

theorem hasMount_of_insert {name : String} {host : VirtualHost} {m : Mount}
    (h : HasMount { c with hosts := c.hosts.insert name host } m) :
    m ∈ host.mounts ∨ c.HasMount m := by
  obtain ⟨entry, he, hm⟩ := h
  rcases Keyed.mem_place he with rfl | he
  · exact Or.inl hm
  · exact Or.inr ⟨entry, he, hm⟩

theorem hasMount_of_addMount {host : String} {mount m : Mount}
    (h : (c.addMount host mount).HasMount m) : m = mount ∨ c.HasMount m := by
  unfold addMount at h
  cases hh : c.host? host with
  | none =>
    rw [hh] at h
    exact Or.inr h
  | some virtual =>
    rw [hh] at h
    rcases hasMount_of_insert h with hm | hm
    · rcases VirtualHost.mem_add hm with rfl | hm
      · exact Or.inl rfl
      · exact Or.inr ⟨_, Keyed.mem_of_find? hh, hm⟩
    · exact Or.inr hm

theorem hasMount_of_register {app : Application} {mounts : List (String × Mount)} {m : Mount}
    (h : (c.register app mounts).HasMount m) : (∃ host, (host, m) ∈ mounts) ∨ c.HasMount m := by
  have hfold : (mounts.foldl (fun c p => c.addMount p.1 p.2) c).HasMount m := h
  clear h
  induction mounts generalizing c with
  | nil => exact Or.inr hfold
  | cons first rest ih =>
    rcases ih hfold with ⟨host, hm⟩ | hm
    · exact Or.inl ⟨host, List.mem_cons_of_mem _ hm⟩
    · rcases hasMount_of_addMount hm with rfl | hm
      · exact Or.inl ⟨first.1, List.mem_cons_self⟩
      · exact Or.inr hm

/-- Wherever a handler is attached, it refers to what it refers to elsewhere. -/
theorem links_of_mounts {handler : Handler} {points : List (String × String)}
    {ms : List (String × Mount)} (h : mounts handler points = .ok ms) :
    ∀ p ∈ ms, p.2.handler.links = handler.links := by
  have hms := Pattern.forall₂_of_mapM h
  clear h
  induction hms with
  | nil => nofun
  | cons hfirst _ ih =>
    refine List.forall_mem_cons.mpr ⟨?_, ih⟩
    obtain ⟨m, hm, hp⟩ := exists_of_bind_ok hfirst
    obtain rfl := Except.ok.inj hp
    rename_i point _ _ _
    cases hpath : Mount.ofPath point.2 handler with
    | error e =>
      rw [hpath] at hm
      cases hm
    | ok m' =>
      rw [hpath] at hm
      obtain rfl := Except.ok.inj hm
      exact Mount.links_of_ofPath hpath

/-- Assembling an application yields it, and mounts for it. -/
theorem exists_of_assemble {name root : String} {config : Config} {registry : Registry}
    (h : c.assemble w name root config registry = .ok (c', w')) : ∃ app t ms,
      (Assembly.application config).Gives
        { context := (Context.create name root config.settings registry config.dispatchers w).1
          world := (Context.create name root config.settings registry config.dispatchers w).2 }
        app t ∧
      mounts app.handler (mountPoints name config) = .ok ms ∧ c' = c.register app ms ∧
      w' = { t.world with applications := t.world.applications.insert name app.handler } := by
  obtain ⟨app, happ, h⟩ := exists_of_bind_ok h
  dsimp only at h
  split at h
  · cases h
  · obtain ⟨ms, hms, h⟩ := exists_of_bind_ok h
    obtain ⟨rfl, rfl⟩ := Prod.mk.inj (Except.ok.inj h)
    exact ⟨app, _, ms, Prod.ext happ rfl, hms, rfl, rfl⟩

theorem hasMount_of_addHost {name : String} {m : Mount} (h : (c.addHost name).HasMount m) :
    c.HasMount m := by
  unfold addHost Keyed.insertIfAbsent at h
  split at h
  · exact h
  · rcases hasMount_of_insert h with hm | hm
    · cases hm
    · exact hm

theorem exists_of_attach {host path : String} {handler : Handler}
    (h : c.attach host path handler = .ok c') : ∃ mount, Mount.ofPath path handler = .ok mount ∧
      ∀ m, c'.HasMount m → m = mount ∨ c.HasMount m := by
  unfold attach at h
  cases hh : c.host? host with
  | none =>
    rw [hh] at h
    cases h
  | some virtual =>
    rw [hh] at h
    dsimp only at h
    unfold VirtualHost.attach at h
    cases hmount : Mount.ofPath path handler with
    | error e =>
      rw [hmount] at h
      cases h
    | ok mount =>
      rw [hmount] at h
      obtain rfl := Except.ok.inj h
      refine ⟨mount, rfl, fun m hm => ?_⟩
      rcases hasMount_of_insert hm with hm | hm
      · rcases VirtualHost.mem_add hm with rfl | hm
        · exact Or.inl rfl
        · exact Or.inr ⟨_, Keyed.mem_of_find? hh, hm⟩
      · exact Or.inr hm

/-- All handlers of a component refer to what is there. -/
theorem IsBuilt.isLinked (h : c.IsBuilt w) : c.IsLinked w := by
  induction h with
  | empty hs ha =>
    intro x hx
    rcases mem_handlers_iff.mp hx with ⟨m, ⟨host, hh, hm⟩, rfl⟩ | hm
    · rcases Keyed.mem_place hh with rfl | hh
      · cases hm
      · rcases Keyed.mem_place hh with rfl | hh
        · cases hm
        · cases hh
    · simp [World.handlers, hs, ha] at hm
  | addHost _ name ih =>
    intro x hx
    rcases mem_handlers_iff.mp hx with ⟨m, hm, rfl⟩ | hm
    · exact ih _ (mem_handlers_iff.mpr (Or.inl ⟨m, hasMount_of_addHost hm, rfl⟩))
    · exact ih _ (mem_handlers_iff.mpr (Or.inr hm))
  | attach _ hl hc ih =>
    obtain ⟨mount, hmount, hmounts⟩ := exists_of_attach hc
    intro x hx
    rcases mem_handlers_iff.mp hx with ⟨m, hm, rfl⟩ | hm
    · rcases hmounts m hm with rfl | hm
      · rw [Mount.links_of_ofPath hmount]
        exact hl
      · exact ih _ (mem_handlers_iff.mpr (Or.inl ⟨m, hm, rfl⟩))
    · exact ih _ (mem_handlers_iff.mpr (Or.inr hm))
  | @assemble c c' w w' _ name root config registry hc ih =>
    obtain ⟨app, t, ms, hgives, hms, rfl, rfl⟩ := exists_of_assemble hc
    obtain ⟨leaves, nodes, done, mount, router, handlers, pages, hparts⟩ :=
      Assembly.exists_parts (Assembly.building_create name root config.settings registry
        config.dispatchers w) hgives
    obtain ⟨happs, hkept, hroot, hadded⟩ := hparts.isResolved_handlers fun x hx =>
      ih x (mem_handlers_iff.mpr (Or.inr hx))
    intro x hx
    rcases mem_handlers_iff.mp hx with ⟨m, hm, rfl⟩ | hm
    · rcases hasMount_of_register hm with ⟨host, hm⟩ | hm
      · rw [links_of_mounts hms _ hm]
        exact hroot
      · exact fun link hl => hkept link (ih _ (mem_handlers_iff.mpr (Or.inl ⟨m, hm, rfl⟩)) link hl)
    · rcases List.mem_append.mp hm with hm | hm
      · exact hadded x (List.mem_append_left _ hm)
      · obtain ⟨entry, he, rfl⟩ := List.mem_map.mp hm
        rcases Keyed.mem_place he with rfl | he
        · exact hroot
        · exact hadded _ (List.mem_append_right _ (List.mem_map_of_mem he))
  | change _ hw ih =>
    intro x hx link hl
    rw [Link.isResolved_congr hw]
    exact ih x (by rwa [handlers, World.handlers, hw.slots, hw.applications]) link hl

end Component

end RequestRouting
