import Mathlib.Data.Finset.Card
import Mathlib.Data.Finset.Dedup
import RequestRouting.Proofs.Assembly.Linked
import RequestRouting.Proofs.Routing.Mount
import RequestRouting.Proofs.Routing.Recursion
import RequestRouting.Proofs.Serving.Agreement

/-!
# Requests are answered

Handlers lead to each other in circles, through the slots of applications and by the names of these,
but only where requests are forwarded. A request remembers the paths it was forwarded to, and isn't
forwarded to any of them again, so it's forwarded at most as often as there are paths to forward to.
-/

namespace RequestRouting

open Serving (Agree)

namespace World

/-- The resource at a target, which is in a slot of its own. -/
def resource? (w : World) : Target → Option Handler
  | .slot place =>
    match w.slots[place]? with
    | some (.owned resource) => some resource
    | _ => none
  | .application _ => none

/-- Makes jumps, of which at most as many as given may be nested. Those to resources don't count, as
resources don't jump anywhere. -/
def jumpWithin (forwards : Nat) : Jump := fun target req => do
  match (← get).resource? target with
  | some resource => resource.run (fun _ _ => failure) req
  | none =>
    match forwards with
    | 0 => failure
    | forwards + 1 =>
      match (← get).handler? target with
      | some handler => handler.run (jumpWithin forwards) req
      | none => return .ofStatus .notFound

variable {w : World} {target : Target}

theorem jumpWithin_of_resource {resource : Handler} (h : w.resource? target = some resource)
    (forwards : Nat) (req : Request) :
    jumpWithin forwards target req w = resource.run (fun _ _ => failure) req w := by
  rw [jumpWithin.eq_def]
  simp only [Serving.bind_apply, Serving.get_apply, Option.bind_some, h]

theorem jumpWithin_succ (h : w.resource? target = none) (forwards : Nat) (req : Request) :
    jumpWithin (forwards + 1) target req w =
      match w.handler? target with
      | some handler => handler.run (jumpWithin forwards) req w
      | none => some (.ofStatus .notFound, w) := by
  rw [jumpWithin.eq_def]
  simp only [Serving.bind_apply, Serving.get_apply, Option.bind_some, h]
  cases w.handler? target <;> rfl

theorem SameHandlers.resource?_eq {w' : World} (h : w.SameHandlers w') (target : Target) :
    w'.resource? target = w.resource? target := by
  cases target <;> simp only [resource?, h.slots]

end World

namespace Forwarder

/-- Whether the path requests are forwarded to depends on them. -/
def hasVariables : Forwarder → Bool
  | capture c _ => c.uri.hasVariables
  | dispatch _ _ _ _ => false

/-- Whether all requests are forwarded to one path that is noticed in their history: it's not empty,
and free of line feeds and of carriage returns at its end. -/
structure IsPlain (f : Forwarder) : Prop where
  fixed : f.hasVariables = false
  line : Text.IsLine (f.path {})
  /-- No value that is attached is written to the history. -/
  locals : Attribute.history ∉ f.locals.map (·.1)

instance (f : Forwarder) : Decidable f.IsPlain :=
  decidable_of_iff (f.hasVariables = false ∧ Text.IsLine (f.path {}) ∧
      Attribute.history ∉ f.locals.map (·.1))
    ⟨fun h => ⟨h.1, h.2.1, h.2.2⟩, fun h => ⟨h.fixed, h.line, h.locals⟩⟩

variable {f : Forwarder}

theorem IsPlain.path_eq (h : f.IsPlain) (req : Request) : f.path req = f.path {} := by
  cases f with
  | capture c application => rw [path_capture h.fixed, path_capture h.fixed]
  | dispatch d uri table application => rfl

/-- A request is only forwarded to a path that isn't in its history, and then it is. -/
theorem IsPlain.forward?_eq_some (h : f.IsPlain) {req req' : Request}
    (hf : f.forward? req = some req') : f.path {} ∉ Text.lines req.history ∧
      req'.history = extendHistory req.history (f.path {}) := by
  rw [f.forward?_eq req h.locals, h.path_eq] at hf
  split at hf
  · cases hf
  · rename_i hn
    obtain rfl := Option.some.inj hf
    rw [Request.history_capturedTo, (f.keepsHistory_prepared req h.locals).history_eq]
    exact ⟨hn, congrArg _ (h.path_eq req)⟩

end Forwarder

/-- The number of paths that aren't in a history. -/
def remaining (paths : Finset String) (history : String) : Nat :=
  (paths.filter (· ∉ Text.lines history)).card

theorem remaining_le (paths : Finset String) (history : String) :
    remaining paths history ≤ paths.card := Finset.card_filter_le _ _

/-- With another path in the history, fewer of them remain. -/
theorem remaining_extendHistory {paths : Finset String} (hl : ∀ path ∈ paths, Text.IsLine path)
    {history path : String} (hp : path ∈ paths) (hn : path ∉ Text.lines history) :
    remaining paths (extendHistory history path) < remaining paths history := by
  refine Finset.card_lt_card (Finset.ssubset_iff_of_subset ?_ |>.mpr ⟨path, ?_, ?_⟩)
  · intro other ho
    obtain ⟨ho, hno⟩ := Finset.mem_filter.mp ho
    exact Finset.mem_filter.mpr ⟨ho, fun hm => hno (mem_extendHistory (hl other ho) hm path)⟩
  · exact Finset.mem_filter.mpr ⟨hp, hn⟩
  · exact fun hm => (Finset.mem_filter.mp hm).2 (mem_extendHistory_self (hl path hp))

/-- A handler refers to what is there, forwards requests to the given paths only, and leaves their
history alone otherwise. -/
structure Handler.LeadsTo (w : World) (paths : Finset String) (h : Handler) : Prop where
  history : h.KeepsHistory
  resolved : ∀ link ∈ h.links, link.IsResolved w
  plain : ∀ link ∈ h.links, ∀ f, link.forwarder? w = some f → f.IsPlain ∧ f.path {} ∈ paths

/-- Requests aren't forwarded to resources. -/
theorem Link.resource?_target {w : World} {link : Link} {f : Forwarder} (h : link.IsResolved w)
    (hf : link.forwarder? w = some f) : w.resource? f.target = none := by
  cases link with
  | slot place => cases hf
  | capture c application =>
    obtain rfl := Option.some.inj hf
    obtain ⟨root, hs⟩ := h
    rw [Forwarder.target]
    cases c.application with
    | none => simp only [World.resource?, hs]
    | some name => rfl
  | dispatch d table application =>
    obtain ⟨uri, -, rfl⟩ := Option.map_eq_some_iff.mp hf
    obtain ⟨root, hs⟩ := h
    simp only [Forwarder.target, World.resource?, hs]

section Termination

variable {w : World} {paths : Finset String}

/-- A slot for a resource answers whatever other jumps do. -/
theorem agree_resource {place : Nat} (hk : ∀ x ∈ w.handlers, x.KeepsHistory)
    (h : (Link.slot place).IsResolved w) (forwards fuel : Nat) (req : Request) :
    Agree w (World.jumpWithin forwards (.slot place) req)
      (World.jump (fuel + 1) (.slot place) req) := by
  obtain ⟨resource, hs, hl⟩ := h
  have hh : w.handler? (.slot place) = some resource := by simp [World.handler?, hs, Slot.get?]
  have hr : w.resource? (.slot place) = some resource := by simp only [World.resource?, hs]
  intro w' hw
  rw [World.jumpWithin_of_resource ((hw.resource?_eq _).trans hr), World.jump_succ,
    hw.handler?_eq, hh]
  exact resource.agree_run (hk resource (World.mem_handlers hh)) (by simp [hl]) req rfl w' hw

/-- Requests are answered with as many forwards nested as paths remain for them, whatever fuel there
is beyond that. -/
theorem Handler.agree_within (hw : ∀ x ∈ w.handlers, x.LeadsTo w paths)
    (hl : ∀ path ∈ paths, Text.IsLine path) (forwards fuel : Nat) (hfuel : forwards < fuel)
    (h : Handler) (hh : h.LeadsTo w paths) (req : Request)
    (hr : remaining paths req.history ≤ forwards) :
    Agree w (h.run (World.jumpWithin forwards) req) (h.run (World.jump fuel) req) := by
  induction forwards using Nat.strongRecOn generalizing fuel h req with
  | ind forwards ih =>
    obtain ⟨fuel, rfl⟩ : ∃ less, fuel = less + 1 := ⟨fuel - 1, by omega⟩
    refine h.agree_run hh.history (fun link hlink => ⟨?_, ?_⟩) req rfl
    · rintro place rfl req' -
      exact agree_resource (fun x hx => (hw x hx).history) (hh.resolved _ hlink) _ _ _
    · intro f hf req' next hreq hnext
      obtain ⟨hplain, hpath⟩ := hh.plain link hlink f hf
      obtain ⟨hn, hhistory⟩ := hplain.forward?_eq_some hnext
      have hless : remaining paths next.history < forwards := by
        rw [hhistory]
        have := remaining_extendHistory hl hpath hn
        rw [hreq] at this ⊢
        omega
      obtain ⟨forwards, rfl⟩ : ∃ less, forwards = less + 1 := ⟨forwards - 1, by omega⟩
      intro w' hw'
      have hres := (hw'.resource?_eq _).trans (Link.resource?_target (hh.resolved _ hlink) hf)
      rw [World.jumpWithin_succ hres, World.jump_succ, hw'.handler?_eq]
      cases ht : w.handler? f.target with
      | none => exact ⟨_, w', rfl, rfl, hw'⟩
      | some root =>
        exact ih forwards (Nat.lt_succ_self _) fuel (by omega) root
          (hw root (World.mem_handlers ht)) next (by omega) w' hw'

end Termination

namespace Component

/-- Whatever forwards requests in a component, with dispatches only if their URI is known. -/
def forwarders (c : Component) (w : World) : List Forwarder :=
  ((c.handlers w).flatMap (·.links)).filterMap (·.forwarder? w)

/-- The paths that requests are forwarded to in a component, if none depends on the request. -/
def targetPaths (c : Component) (w : World) : Finset String :=
  ((c.forwarders w).map (·.path {})).toFinset

/-- Answers a request to a virtual host, given how jumps are made. -/
def serveBy (c : Component) (jump : Jump) (host : String) (req : Request) : Serving Response :=
  match c.host? host with
  | none => return .ofStatus .notFound
  | some host =>
    match VirtualHost.decide req host.mounts with
    | .handle handler => handler.run jump req
    | .redirect res => return res
    | .unknown => return .ofStatus .notFound

theorem serveBy_jump (c : Component) (fuel : Nat) (host : String) (req : Request) :
    c.serveBy (World.jump fuel) host req = c.serve fuel host req := by
  unfold serveBy serve
  cases c.host? host with
  | none => rfl
  | some host =>
    dsimp only [VirtualHost.serve]
    cases VirtualHost.decide req host.mounts <;> rfl

variable {c : Component} {w : World}

theorem leadsTo (h : c.IsLinked w) (hf : ∀ f ∈ c.forwarders w, f.IsPlain)
    (hk : ∀ x ∈ c.handlers w, x.KeepsHistory) {x : Handler} (hx : x ∈ c.handlers w) :
    x.LeadsTo w (c.targetPaths w) := by
  refine ⟨hk x hx, h x hx, fun link hl f hforwarder => ?_⟩
  have hm : f ∈ c.forwarders w :=
    List.mem_filterMap.mpr ⟨link, List.mem_flatMap.mpr ⟨x, hx, hl⟩, hforwarder⟩
  exact ⟨hf f hm, List.mem_toFinset.mpr (List.mem_map_of_mem hm)⟩

/-- Every request to a component is answered, however its handlers lead to each other, if all paths
that requests are forwarded to are noticed in their history: with no more forwards nested than there
are such paths, and with any fuel beyond that. The handlers are left as they are, so that holds of
the next request, too. -/
theorem terminates (h : c.IsBuilt w) (hf : ∀ f ∈ c.forwarders w, f.IsPlain)
    (hk : ∀ x ∈ c.handlers w, x.KeepsHistory) (host : String) (req : Request) :
    ∃ res w', c.serveBy (World.jumpWithin (c.targetPaths w).card) host req w = some (res, w') ∧
      (∀ fuel, (c.targetPaths w).card < fuel → c.serve fuel host req w = some (res, w')) ∧
      w.SameHandlers w' := by
  have hlines : ∀ path ∈ c.targetPaths w, Text.IsLine path := by
    intro path hp
    obtain ⟨f, hm, rfl⟩ := List.mem_map.mp (List.mem_toFinset.mp hp)
    exact (hf f hm).line
  have hworld : ∀ x ∈ w.handlers, x.LeadsTo w (c.targetPaths w) := fun x hx =>
    leadsTo h.isLinked hf hk (mem_handlers_iff.mpr (Or.inr hx))
  have hagree (fuel : Nat) (hfuel : (c.targetPaths w).card < fuel) :
      Agree w (c.serveBy (World.jumpWithin (c.targetPaths w).card) host req)
        (c.serveBy (World.jump fuel) host req) := by
    unfold serveBy
    cases hh : c.host? host with
    | none => exact .pure _
    | some virtual =>
      dsimp only
      cases hd : VirtualHost.decide req virtual.mounts with
      | redirect res => exact .pure _
      | unknown => exact .pure _
      | handle handler =>
        obtain ⟨m, hm, rfl, -⟩ := VirtualHost.decide_eq_handle hd
        have hx : m.handler ∈ c.handlers w :=
          mem_handlers_iff.mpr (Or.inl ⟨m, ⟨_, Keyed.mem_of_find? hh, hm⟩, rfl⟩)
        exact m.handler.agree_within hworld hlines _ fuel hfuel (leadsTo h.isLinked hf hk hx) req
          (remaining_le _ _)
  obtain ⟨res, w', hres, -, hw'⟩ := hagree _ (Nat.lt_succ_self _) w (.refl w)
  refine ⟨res, w', hres, fun fuel hfuel => ?_, hw'⟩
  obtain ⟨res₂, w₂, hres₂, hserve, -⟩ := hagree fuel hfuel w (.refl w)
  rw [← serveBy_jump, hserve, ← hres₂, hres]

/-- An application whose pages lead to each other in a circle, which its error page leads into. -/
def circleConfig : Config where
  hosts := ⟨[("default", "/")]⟩
  routes := ⟨[("/a/", .node (.capture { uri := "/b/" })),
    ("/b/", .node (.capture { uri := "/a/" }))]⟩
  errors := .ofList [(404, "/a/")]

/-- A request for a page that isn't there is answered in the end, though it's led around in the
circle. -/
theorem terminates_circle : ∃ c w, IsBuilt c w ∧ (∀ f ∈ c.forwarders w, f.IsPlain) ∧
    (∀ x ∈ c.handlers w, x.KeepsHistory) ∧
    (c.targetPaths w).card = 2 ∧ ∃ res w', c.serve 3 "default" { uri := .parse "/c/" } w =
      some (res, w') ∧ res.status = .internalServerError := by
  obtain ⟨⟨c, w⟩, hc, hf, hk, hcard, hres⟩ :
      ∃ p ∈ (Component.empty.assemble {} "circle" "." circleConfig {}).toOption,
        (∀ f ∈ p.1.forwarders p.2, f.IsPlain) ∧
        (∀ x ∈ p.1.handlers p.2, ∀ node ∈ x.nodes,
          Attribute.history ∉ node.writes ∧ node.filter?.isNone) ∧
        (p.1.targetPaths p.2).card = 2 ∧
        (p.1.serve 3 "default" { uri := .parse "/c/" } p.2).map (·.1.status) =
          some .internalServerError := by
    decide +kernel
  have hbuilt : c.IsBuilt w := .assemble (.empty rfl rfl) (Assembly.eq_ok_of_toOption hc)
  have hkeeps : ∀ x ∈ c.handlers w, x.KeepsHistory := by
    intro x hx node hn
    obtain ⟨hwrites, hfilter⟩ := hk x hx node hn
    exact ⟨hwrites, fun f hf => by simp [hf] at hfilter⟩
  obtain ⟨res, w', -, hserve, -⟩ := terminates hbuilt hf hkeeps "default" { uri := .parse "/c/" }
  have hthree := hserve 3 (by rw [hcard]; decide)
  refine ⟨c, w, hbuilt, hf, hkeeps, hcard, res, w', hthree, ?_⟩
  dsimp only at hres
  rw [hthree] at hres
  exact Option.some.inj hres

end Component

end RequestRouting
