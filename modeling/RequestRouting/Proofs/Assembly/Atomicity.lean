import RequestRouting.Proofs.Assembly.Keeping
import RequestRouting.Proofs.Assembly.Linked
import RequestRouting.Proofs.Config

/-!
# Applications are attached entirely or not at all

Assembling an application either yields a component and a world with it, or an error, and says
nothing about what happened up to that error. Here the same is done one step after another, in a
component that is changed in place, so the changes made before an error stay. There aren't any in the
component: each of its virtual hosts is looked up, and each mount is made, before the first of them
is added. What's added to the world until then is out of reach for everything that was there before.
-/

namespace RequestRouting

namespace VirtualHost

/-- Whether a virtual host gains a mount and keeps all others in their order. -/
def Gains (h h' : VirtualHost) (mount : Mount) : Prop :=
  ∃ before after, h.mounts = before ++ after ∧ h'.mounts = before ++ mount :: after

theorem gains_add (h : VirtualHost) (mount : Mount) : h.Gains (h.add mount) mount :=
  ⟨_, _, List.takeWhile_append_dropWhile.symm, rfl⟩

end VirtualHost

namespace Component

/-- The mounts of an application, unless a virtual host is unknown or a mount point is malformed. -/
def plan (c : Component) (handler : Handler) (points : List (String × String)) :
    Except Error (List (String × Mount)) :=
  match points.find? fun (host, _) => (c.host? host).isNone with
  | some (host, _) => .error (.unknownHost host)
  | none => mounts handler points

end Component

/-- Where applications are assembled: a component, and the world it's in. -/
structure Site where
  component : Component
  world : World

/-- What is done on a site, where changes that were made before an error stay. -/
abbrev Deployment := ExceptT Error (StateM Site)

namespace Deployment

open Assembly (bind_apply)

variable {α : Type}

/-- Does something in the world, with a context of its own. -/
def inContext (create : World → Context × World) (x : Assembly α) : Deployment α := fun s =>
  let (context, world) := create s.world
  let (result, state) := x { context, world }
  (result, { s with world := state.world })

/-- Looks up a virtual host. -/
def requireHost (host : String) : Deployment Unit := do
  if ((← get).component.host? host).isNone then throw (.unknownHost host)

/-- Looks up the virtual hosts of mount points in order. -/
def requireHosts : List (String × String) → Deployment Unit
  | [] => return
  | (host, _) :: rest => do
    requireHost host
    requireHosts rest

/-- Takes a result over, which may be an error. -/
def ofResult (result : Except Error α) : Deployment α := fun s => (result, s)

/-- Makes the mounts of a handler in order, looking up their virtual hosts once more. -/
def makeMounts (handler : Handler) : List (String × String) → Deployment (List (String × Mount))
  | [] => return []
  | (host, path) :: rest => do
    requireHost host
    let mount ← ofResult ((Mount.ofPath path handler).mapError Error.handler)
    return (host, mount) :: (← makeMounts handler rest)

/-- Adds mounts in order. -/
def addMounts : List (String × Mount) → Deployment Unit
  | [] => return
  | (host, mount) :: rest => do
    modify fun s => { s with component := s.component.addMount host mount }
    addMounts rest

/-- Attaches an application to virtual hosts, and registers it. -/
def attach (application : Application) (points : List (String × String)) : Deployment Unit := do
  addMounts (← makeMounts application.handler points)
  modify fun s => { s with world := { s.world with
    applications := s.world.applications.insert application.name application.handler } }
  modify fun s => { s with component := { s.component with
    applications := s.component.applications.insert application.name application } }

/-- Attaches an application once all of its virtual hosts were looked up. -/
def attachKnown (application : Application) (points : List (String × String)) :
    Deployment Unit := do
  requireHosts points
  attach application points

/-- Assembles an application in a directory, and attaches it to its virtual hosts. -/
def assemble (name root : String) (config : Config) (registry : Registry) :
    Deployment Application := do
  let application ← inContext
    (Context.create name root config.settings registry config.dispatchers)
    (Assembly.application config)
  attachKnown application (Component.mountPoints name config)
  return application

variable {s : Site} {points : List (String × String)} {handler : Handler}

/-! What each of the steps does. -/

theorem requireHost_apply (host : String) (s : Site) : requireHost host s =
    (if (s.component.host? host).isNone then .error (.unknownHost host) else .ok (), s) := by
  have he : requireHost host s = (if (s.component.host? host).isNone then
      throw (.unknownHost host) else pure () : Deployment Unit) s := rfl
  rw [he]
  split <;> rfl

/-- The first virtual host that's unknown is refused. -/
theorem requireHosts_of_find? {host path : String}
    (h : points.find? (fun (host, _) => (s.component.host? host).isNone) = some (host, path)) :
    requireHosts points s = (.error (.unknownHost host), s) := by
  induction points with
  | nil => cases h
  | cons point rest ih =>
    rw [requireHosts, bind_apply, requireHost_apply]
    rw [List.find?_cons] at h
    split at h
    · rename_i hnone
      obtain rfl := Option.some.inj h
      rw [if_pos hnone]
    · rename_i hsome
      rw [if_neg (Bool.eq_false_iff.mp hsome)]
      exact ih h

theorem requireHosts_of_known (h : ∀ point ∈ points, (s.component.host? point.1).isNone = false) :
    requireHosts points s = (.ok (), s) := by
  induction points with
  | nil => rfl
  | cons point rest ih =>
    obtain ⟨hpoint, hrest⟩ := List.forall_mem_cons.mp h
    rw [requireHosts, bind_apply, requireHost_apply, if_neg (Bool.eq_false_iff.mp hpoint)]
    exact ih hrest

/-- Where all virtual hosts are known, making mounts changes nothing. -/
theorem makeMounts_apply (handler : Handler)
    (h : ∀ point ∈ points, (s.component.host? point.1).isNone = false) :
    makeMounts handler points s = (Component.mounts handler points, s) := by
  induction points with
  | nil =>
    rw [makeMounts, Component.mounts, List.mapM_nil]
    rfl
  | cons point rest ih =>
    obtain ⟨hpoint, hrest⟩ := List.forall_mem_cons.mp h
    have hm : Component.mounts handler (point :: rest) = (do
        let mount ← (Mount.ofPath point.2 handler).mapError Error.handler
        let mounts ← Component.mounts handler rest
        return (point.1, mount) :: mounts) := by
      simp only [Component.mounts, List.mapM_cons, bind_assoc, pure_bind]
    rw [makeMounts, bind_apply, requireHost_apply, if_neg (Bool.eq_false_iff.mp hpoint), hm]
    dsimp only
    rw [bind_apply, ofResult]
    cases (Mount.ofPath point.2 handler).mapError Error.handler with
    | error e => rfl
    | ok mount =>
      dsimp only
      rw [bind_apply, ih hrest]
      cases Component.mounts handler rest with
      | error e => rfl
      | ok mounts => rfl

/-- Adding mounts never fails. -/
theorem addMounts_apply (mounts : List (String × Mount)) (s : Site) : addMounts mounts s =
    (.ok (), { s with
      component := mounts.foldl (fun c p => c.addMount p.1 p.2) s.component }) := by
  induction mounts generalizing s with
  | nil => rfl
  | cons first rest ih => exact ih _

/-- An application is attached to all of its virtual hosts if its mounts can be made, or else to
none. -/
theorem attachKnown_apply (application : Application) (points : List (String × String)) (s : Site) :
    attachKnown application points s =
      match s.component.plan application.handler points with
      | .error error => (.error error, s)
      | .ok mounts => (.ok (), {
          component := s.component.register application mounts
          world := { s.world with applications :=
            s.world.applications.insert application.name application.handler } }) := by
  rw [attachKnown, bind_apply, Component.plan]
  cases hf : points.find? fun (host, _) => (s.component.host? host).isNone with
  | some point => rw [requireHosts_of_find? hf]
  | none =>
    have hk : ∀ point ∈ points, (s.component.host? point.1).isNone = false := fun point hp =>
      Bool.eq_false_iff.mpr (List.find?_eq_none.mp hf point hp)
    rw [requireHosts_of_known hk]
    dsimp only
    rw [attach, bind_apply, makeMounts_apply _ hk]
    cases Component.mounts application.handler points with
    | error e => rfl
    | ok mounts =>
      dsimp only
      rw [bind_apply, addMounts_apply]
      rfl

end Deployment

namespace Component

variable {c : Component} {host name : String} {mount : Mount}

theorem host?_addMount_self {h : VirtualHost} (hh : c.host? host = some h) :
    (c.addMount host mount).host? host = some (h.add mount) := by
  rw [addMount, hh]
  exact Keyed.get?_insert_self _ _ _

theorem host?_addMount_of_ne (hne : name ≠ host) :
    (c.addMount host mount).host? name = c.host? name := by
  unfold addMount
  split
  · exact Keyed.get?_insert_of_ne _ hne _
  · rfl

theorem applications_addMount (c : Component) (host : String) (mount : Mount) :
    (c.addMount host mount).applications = c.applications := by
  unfold addMount
  split <;> rfl

theorem applications_foldl (mounts : List (String × Mount)) (c : Component) :
    (mounts.foldl (fun c p => c.addMount p.1 p.2) c).applications = c.applications := by
  induction mounts generalizing c with
  | nil => rfl
  | cons first rest ih => exact (ih _).trans (applications_addMount c first.1 first.2)

/-- Whether a virtual host of each of the mount points gains one mount that is made for it, other
virtual hosts gain nothing, and the application is registered. -/
structure Gains (c c' : Component) (application : Application) (points : List (String × String)) :
    Prop where
  gained : ∀ point ∈ points, ∃ host mount host', c.host? point.1 = some host ∧
    Mount.ofPath point.2 application.handler = .ok mount ∧
    c'.host? point.1 = some host' ∧ host.Gains host' mount
  others : ∀ name, name ∉ points.map (·.1) → c'.host? name = c.host? name
  applications : c'.applications = c.applications.insert application.name application

/-- The mounts that are added to other virtual hosts make no difference to one. -/
theorem host?_foldl_of_not_mem {mounts : List (String × Mount)} (h : name ∉ mounts.map (·.1)) :
    (mounts.foldl (fun c p => c.addMount p.1 p.2) c).host? name = c.host? name := by
  induction mounts generalizing c with
  | nil => rfl
  | cons first rest ih =>
    rw [List.map_cons, List.mem_cons, not_or] at h
    exact (ih h.2).trans (host?_addMount_of_ne h.1)

/-- A virtual host gains the mount that is added to it. -/
theorem host?_foldl_of_mem {mounts : List (String × Mount)} (hd : (mounts.map (·.1)).Nodup)
    (hm : (name, mount) ∈ mounts) {h : VirtualHost} (hh : c.host? name = some h) :
    (mounts.foldl (fun c p => c.addMount p.1 p.2) c).host? name = some (h.add mount) := by
  induction mounts generalizing c with
  | nil => cases hm
  | cons first rest ih =>
    rw [List.map_cons, List.nodup_cons] at hd
    rw [List.foldl_cons]
    rcases List.mem_cons.mp hm with rfl | hm
    · exact (host?_foldl_of_not_mem hd.1).trans (host?_addMount_self hh)
    · have hne : name ≠ first.1 := by
        rintro rfl
        exact hd.1 (List.mem_map.mpr ⟨_, hm, rfl⟩)
      exact ih hd.2 hm ((host?_addMount_of_ne hne).trans hh)

/-- Mounts are made only if all virtual hosts are known. -/
theorem plan_eq_ok {handler : Handler} {points : List (String × String)}
    {ms : List (String × Mount)} (h : c.plan handler points = .ok ms) :
    (∀ point ∈ points, (c.host? point.1).isNone = false) ∧ mounts handler points = .ok ms := by
  unfold plan at h
  split at h
  · cases h
  · rename_i hf
    exact ⟨fun point hp => Bool.eq_false_iff.mpr (List.find?_eq_none.mp hf point hp), h⟩

theorem ofPath_of_mapError {path : String} {handler : Handler}
    (h : (Mount.ofPath path handler).mapError Error.handler = .ok mount) :
    Mount.ofPath path handler = .ok mount := by
  cases hpath : Mount.ofPath path handler with
  | error e =>
    rw [hpath] at h
    cases h
  | ok m =>
    rw [hpath] at h
    exact congrArg _ (Except.ok.inj h)

/-- There is a mount for each mount point, and no other mount. -/
theorem exists_of_mounts {handler : Handler} {points : List (String × String)}
    {ms : List (String × Mount)} (h : mounts handler points = .ok ms) :
    ms.map (·.1) = points.map (·.1) ∧ ∀ point ∈ points, ∃ mount,
      Mount.ofPath point.2 handler = .ok mount ∧ (point.1, mount) ∈ ms := by
  have hms := Pattern.forall₂_of_mapM h
  clear h
  induction hms with
  | nil => exact ⟨rfl, nofun⟩
  | @cons point p points ms hp _ ih =>
    obtain ⟨mount, hmount, hp⟩ := exists_of_bind_ok hp
    obtain rfl := Except.ok.inj hp
    refine ⟨by rw [List.map_cons, List.map_cons, ih.1], List.forall_mem_cons.mpr ⟨?_, ?_⟩⟩
    · exact ⟨mount, ofPath_of_mapError hmount, List.mem_cons_self⟩
    · intro point hpoint
      obtain ⟨mount, hmount, hm⟩ := ih.2 point hpoint
      exact ⟨mount, hmount, List.mem_cons_of_mem _ hm⟩

theorem applications_register (c : Component) (application : Application)
    (ms : List (String × Mount)) : (c.register application ms).applications =
      c.applications.insert application.name application := by
  rw [register]
  dsimp only
  rw [applications_foldl]

/-- The virtual host of a mount point is known, and gets a mount for it. -/
theorem host?_register {application : Application} {points : List (String × String)}
    {ms : List (String × Mount)} (hd : (points.map (·.1)).Nodup)
    (h : c.plan application.handler points = .ok ms) {point : String × String}
    (hpoint : point ∈ points) : ∃ host mount, c.host? point.1 = some host ∧
      Mount.ofPath point.2 application.handler = .ok mount ∧
      (c.register application ms).host? point.1 = some (host.add mount) := by
  obtain ⟨hk, hms⟩ := plan_eq_ok h
  obtain ⟨hkeys, hmounts⟩ := exists_of_mounts hms
  obtain ⟨mount, hmount, hm⟩ := hmounts point hpoint
  obtain ⟨host, hhost⟩ := Option.isSome_iff_exists.mp
    (Option.isNone_eq_false_iff.mp (hk point hpoint))
  exact ⟨host, mount, hhost, hmount, host?_foldl_of_mem (hkeys ▸ hd) hm hhost⟩

/-- Registering an application adds one mount to each of its virtual hosts. -/
theorem gains_register {application : Application} {points : List (String × String)}
    {ms : List (String × Mount)} (hd : (points.map (·.1)).Nodup)
    (h : c.plan application.handler points = .ok ms) :
    c.Gains (c.register application ms) application points := by
  refine ⟨fun point hpoint => ?_, fun name hname => ?_, applications_register c application ms⟩
  · obtain ⟨host, mount, hhost, hmount, hadded⟩ := host?_register hd h hpoint
    exact ⟨host, mount, host.add mount, hhost, hmount, hadded, host.gains_add mount⟩
  · have hkeys := (exists_of_mounts (plan_eq_ok h).2).1
    exact host?_foldl_of_not_mem (hkeys ▸ hname)

/-- The mount points of an application are on different virtual hosts, as they are in every
configuration that's read. -/
theorem nodup_mountPoints {config : Config} (h : config.hosts.keys.Nodup) (name : String) :
    ((mountPoints name config).map (·.1)).Nodup := by
  unfold mountPoints
  split
  · exact List.nodup_cons.mpr ⟨List.not_mem_nil, List.nodup_nil⟩
  · exact h

/-- The state that an application begins to be assembled in. -/
def start (w : World) (name root : String) (config : Config) (registry : Registry) :
    Assembly.State where
  context := (Context.create name root config.settings registry config.dispatchers w).1
  world := (Context.create name root config.settings registry config.dispatchers w).2

/-- All virtual hosts are looked up before any mount is made. -/
theorem plan_bind {α : Type} (c : Component) (handler : Handler) (points : List (String × String))
    (f : List (String × Mount) → Except Error α) : c.plan handler points >>= f = (do
      if let some (host, _) := points.find? fun (host, _) => (c.host? host).isNone then
        .error (.unknownHost host)
      f (← mounts handler points)) := by
  unfold plan
  split
  · rename_i hf
    rw [hf]
    rfl
  · rename_i hf
    rw [hf]

/-- An application is assembled in a state of its own. Only the world is taken over from it. -/
theorem assemble_start (c : Component) (w : World) (name root : String) (config : Config)
    (registry : Registry) : c.assemble w name root config registry =
      match Assembly.application config (start w name root config registry) with
      | (result, state) => do
        let application ← result
        let points := mountPoints name config
        if let some (host, _) := points.find? fun (host, _) => (c.host? host).isNone then
          .error (.unknownHost host)
        let mounts ← mounts application.handler points
        return (c.register application mounts, { state.world with
          applications := state.world.applications.insert name application.handler }) := rfl

theorem assemble_eq (c : Component) (w : World) (name root : String) (config : Config)
    (registry : Registry) : c.assemble w name root config registry =
      match Assembly.application config (start w name root config registry) with
      | (.error e, _) => .error e
      | (.ok application, t) => do
        let mounts ← c.plan application.handler (mountPoints name config)
        return (c.register application mounts,
          { t.world with applications := t.world.applications.insert name application.handler })
    := by
  rw [assemble_start]
  generalize Assembly.application config (start w name root config registry) = p
  obtain ⟨r, t⟩ := p
  cases r with
  | error e => rfl
  | ok application =>
    dsimp only
    rw [plan_bind]
    rfl

/-- Whether an application is assembled or not, that's done without a trace of its own or entirely:
an error leaves the component as it is, and all that was in the world, the registered applications
among it, while otherwise one mount is added to each of the virtual hosts of the application, and
it's registered by its name. -/
theorem assemble_atomic (c : Component) (w : World) (name root : String) (config : Config)
    (registry : Registry) (hd : config.hosts.keys.Nodup) :
    match c.assemble w name root config registry with
    | .error e => ∃ w', w.IsKept w' ∧
        Deployment.assemble name root config registry ⟨c, w⟩ = (.error e, ⟨c, w'⟩)
    | .ok (c', w') => ∃ application,
        Deployment.assemble name root config registry ⟨c, w⟩ = (.ok application, ⟨c', w'⟩) ∧
        application.name = name ∧ c.Gains c' application (mountPoints name config) ∧
        w'.applications = w.applications.insert name application.handler ∧
        w.IsKept { w' with applications := w.applications } := by
  have hstart : Assembly.State.IsApart w name (start w name root config registry) :=
    Assembly.isApart_create name root config.settings registry config.dispatchers w
  have hkept := Assembly.keeps_application config _ hstart
  have hname (app : Application) (t : Assembly.State)
      (hg : (Assembly.application config).Gives (start w name root config registry) app t) :=
    Assembly.name_of_gives hg hstart
  have hin : Deployment.inContext
        (Context.create name root config.settings registry config.dispatchers)
        (Assembly.application config) ⟨c, w⟩ =
      ((Assembly.application config (start w name root config registry)).1,
        ⟨c, (Assembly.application config (start w name root config registry)).2.world⟩) := rfl
  rw [assemble_eq, Deployment.assemble, Assembly.bind_apply, hin]
  unfold Assembly.Gives at hname
  generalize Assembly.application config (start w name root config registry) = p at hkept hname ⊢
  obtain ⟨r, t⟩ := p
  cases r with
  | error e => exact ⟨t.world, hkept.world, rfl⟩
  | ok app =>
    obtain rfl := hname app t rfl
    dsimp only
    rw [Assembly.bind_apply, Deployment.attachKnown_apply]
    dsimp only
    cases hp : c.plan app.handler (mountPoints app.name config) with
    | error e => exact ⟨t.world, hkept.world, rfl⟩
    | ok mounts =>
      have hgains := gains_register (nodup_mountPoints hd app.name) hp
      refine ⟨app, rfl, rfl, hgains, ?_, ?_⟩
      · rw [hkept.world.applications]
      · exact { hkept.world with applications := rfl }

/-- An application on two virtual hosts, given its mount points. -/
def twoHosts (first second : String) : Config where
  hosts := ⟨[(defaultHost, first), (internalHost, second)]⟩

/-- A malformed mount point on the second virtual host leaves no mount on the first one, while
well-formed ones are added to both. -/
theorem atomic_twoHosts :
    ((twoHosts "/a/" "/\x7b/").hosts.keys.Nodup ∧ ∃ e w', ({} : World).IsKept w' ∧
      Component.empty.assemble {} "a" "." (twoHosts "/a/" "/\x7b/") {} = .error e ∧
      Deployment.assemble "a" "." (twoHosts "/a/" "/\x7b/") {} ⟨.empty, {}⟩ =
        (.error e, ⟨.empty, w'⟩)) ∧
    (twoHosts "/a/" "/b/").hosts.keys.Nodup ∧ ∃ c' w' application,
      Component.empty.assemble {} "a" "." (twoHosts "/a/" "/b/") {} = .ok (c', w') ∧
      Component.empty.Gains c' application [(defaultHost, "/a/"), (internalHost, "/b/")] := by
  have hfail : (Component.empty.assemble {} "a" "." (twoHosts "/a/" "/\x7b/") {}).isOk = false := by
    decide +kernel
  have hok : (Component.empty.assemble {} "a" "." (twoHosts "/a/" "/b/") {}).isOk = true := by
    decide +kernel
  have hd : (twoHosts "/a/" "/\x7b/").hosts.keys.Nodup := by decide
  have hd' : (twoHosts "/a/" "/b/").hosts.keys.Nodup := by decide
  have h := assemble_atomic .empty {} "a" "." (twoHosts "/a/" "/\x7b/") {} hd
  have h' := assemble_atomic .empty {} "a" "." (twoHosts "/a/" "/b/") {} hd'
  refine ⟨⟨hd, ?_⟩, hd', ?_⟩
  · cases ha : Component.empty.assemble {} "a" "." (twoHosts "/a/" "/\x7b/") {} with
    | ok p =>
      rw [ha] at hfail
      cases hfail
    | error e =>
      rw [ha] at h
      obtain ⟨w', hk, hsite⟩ := h
      exact ⟨e, w', hk, rfl, hsite⟩
  · cases ha : Component.empty.assemble {} "a" "." (twoHosts "/a/" "/b/") {} with
    | error e =>
      rw [ha] at hok
      cases hok
    | ok p =>
      rw [ha] at h'
      obtain ⟨application, -, -, hgains, -⟩ := h'
      exact ⟨p.1, p.2, application, rfl, hgains⟩

end Component

end RequestRouting
