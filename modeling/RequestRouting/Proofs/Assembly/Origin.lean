import RequestRouting.Proofs.Assembly.Dispatching
import RequestRouting.Proofs.Assembly.Nodes
import RequestRouting.Proofs.Routing.Mount
import RequestRouting.Proofs.Serving.Passing

/-!
# What is known of the origin of a request

Three attributes tell where a request comes from: its base, which together with the path is its
reference, the mount point of the application, and the reference that was recorded when the request
was forwarded first. Handlers of an application move text from the path to the base, but keep the
reference and the other two, as long as nothing configured writes to reserved names, and no prefix
route has a variable with the name of the remainder.
-/

namespace RequestRouting

open Assembly (IsReserved)
open Keyed (get?_insert_of_ne get?_insertIfAbsent_of_ne get?_insertMany_of_not_mem get?_erase_of_ne)

namespace Request

/-- Whether two requests have the same reference, the same recorded one, and the same mount point of
the application. -/
structure SameOrigin (a b : Request) : Prop where
  reference : b.reference = a.reference
  captured : b.attributes.get? Attribute.captured = a.attributes.get? Attribute.captured
  root : b.attributes.get? Attribute.root = a.attributes.get? Attribute.root

theorem SameOrigin.refl (req : Request) : SameOrigin req req := ⟨rfl, rfl, rfl⟩

theorem SameOrigin.trans {a b c : Request} (h : SameOrigin a b) (h' : SameOrigin b c) :
    SameOrigin a c :=
  ⟨h'.reference.trans h.reference, h'.captured.trans h.captured, h'.root.trans h.root⟩

/-- Values that aren't reserved don't count. -/
theorem sameOrigin_setAll (req : Request) {values : List (String × String)}
    (h : ∀ name ∈ values.map (·.1), ¬IsReserved name) : SameOrigin req (req.setAll values) :=
  ⟨(sameParts_setAll req fun hm => h _ hm (by decide)).reference.symm,
    get?_insertMany_of_not_mem _ fun hm => h _ hm (by decide),
    get?_insertMany_of_not_mem _ fun hm => h _ hm (by decide)⟩

theorem sameOrigin_set (req : Request) {name : String} (value : String)
    (hn : name ∉ [Attribute.base, Attribute.captured, Attribute.root]) :
    SameOrigin req (req.set name value) := by
  simp only [List.mem_cons, List.not_mem_nil, or_false, not_or] at hn
  obtain ⟨hb, hc, hr⟩ := hn
  refine ⟨?_, get?_insert_of_ne _ (Ne.symm hc) _, get?_insert_of_ne _ (Ne.symm hr) _⟩
  simp only [reference_eq, base, set, get?_insert_of_ne _ (Ne.symm hb)]

end Request

open Request (SameOrigin sameOrigin_set sameOrigin_setAll)

/-- The handler of an entry gets a request with the same origin. -/
theorem Router.sameOrigin_enter {e : Entry} (he : e.IsRead)
    (hk : ∀ name ∈ e.route.keys, ¬IsReserved name)
    (hr : e.route.isPrefixRoute = true → Route.remainder ∉ e.route.keys) {req req' : Request}
    (h : enter e req = some req') : SameOrigin req req' := by
  have hb : Attribute.base ∉ e.route.keys := fun hm => hk _ hm (by decide)
  have hparts : Request.SameParts req req' := by
    cases hm : e.route.matching with
    | exact => exact sameParts_enter_exact he.matcher hm hb h
    | startsWith =>
      have hp : e.route.isPrefixRoute = true := by rw [Route.isPrefixRoute, hm]; rfl
      exact sameParts_enter ⟨he.cleaned, he.matcher, hr hp, hb⟩ h
  obtain ⟨-, attributes, hreq, hkeep⟩ := exists_of_enter h
  have hnames {name : String} (hn : IsReserved name) (hrr : name ≠ Route.remainder) :
      name ∉ e.names := fun hm =>
    (e.mem_keys_of_mem_names he.matcher hm).elim (fun hm => hk _ hm hn) hrr
  refine ⟨hparts.reference.symm, ?_, ?_⟩
  · rw [hreq]
    exact hkeep _ (by decide) (hnames (by decide) (by decide))
  · rw [hreq]
    exact hkeep _ (by decide) (hnames (by decide) (by decide))

/-- Whether no executor of a filter changes the origin of a request. -/
def Filter.KeepsOrigin (f : Filter) : Prop :=
  ∀ extension executor, f.registry.executor? extension = some executor →
    ∀ tally invocation req req', executor.before tally invocation req = .continue req' →
      SameOrigin req req'

namespace Handler

/-- The names of the values that a handler is configured to give to requests: the variables of its
routes, and the values it attaches. -/
def names : Handler → List String
  | .router r _ => r.entries.flatMap (·.route.keys)
  | .capture c _ => c.locals.map (·.1)
  | .dispatch d _ _ => d.locals.map (·.1)
  | .layer (.attach values) _ => values.map (·.1)
  | .layer (.errorPages e) _ => e.pages.entries.flatMap fun (_, page) => page.locals.map (·.1)
  | _ => []

/-- Whether a handler, whatever it passes requests on to, gives no reserved names to values, and
doesn't change the origin of requests by a filter. -/
structure SparesOrigin (h : Handler) : Prop where
  names : ∀ name ∈ h.names, ¬IsReserved name
  filter : ∀ f, h.filter? = some f → f.KeepsOrigin

/-- The entries of a router. -/
def entries : Handler → List Router.Entry
  | .router r _ => r.entries
  | _ => []

/-- Whether no prefix route of a router has a variable with the name of the remainder. -/
def SparesRemainder (h : Handler) : Prop :=
  ∀ e ∈ h.entries, e.route.isPrefixRoute = true → Route.remainder ∉ e.route.keys

instance (h : Handler) : Decidable h.SparesRemainder :=
  inferInstanceAs (Decidable (∀ e ∈ h.entries, _ → _))

/-- A handler in an application passes on requests with the origin they have. -/
theorem Passes.sameOrigin {h next : Handler} {req req' : Request} (hp : h.Passes req next req')
    (hi : h.IsInner) (hs : h.SparesOrigin) (hr : h.SparesRemainder) : SameOrigin req req' := by
  cases hp with
  | chain c req hm => exact .refl req
  | router hsel hh =>
    obtain ⟨e, he, henter⟩ := Router.route?_eq_some hsel
    refine Router.sameOrigin_enter (hi e he) (fun name hn => ?_) (hr e he) henter
    exact hs.names name (List.mem_flatMap.mpr ⟨e, he, hn⟩)
  | layer next hm =>
    rename_i middleware
    cases middleware with
    | basePath b => cases hi
    | applicationRoot => cases hi
    | basicAuth a =>
      obtain ⟨user, rfl⟩ := BasicAuth.eq_of_authenticate hm
      exact sameOrigin_set req user (by decide)
    | attach values =>
      obtain rfl : req' = req.setAll values := hm
      exact sameOrigin_setAll req hs.names
    | filter f =>
      obtain ⟨extension, executor, tally, invocation, hx, hb⟩ := hm
      exact hs.filter f rfl extension executor hx tally invocation req req' hb
    | normalizePath _ | compress _ | staticFiles _ | cacheControl _ | cors _ | assets _ _
    | errorPages _ =>
      obtain rfl : req' = req := hm
      exact .refl _
  | page next req hp => exact sameOrigin_set req _ (by decide)

theorem Passes.mem_links {h next : Handler} {req req' : Request} {link : Link}
    (hp : h.Passes req next req') (hl : link ∈ next.links) : link ∈ h.links := by
  cases hp with
  | chain c req hm => exact mem_linksAll.mpr ⟨next, hm, hl⟩
  | router hs hh => exact mem_linksAll.mpr ⟨next, List.mem_of_getElem? hh, hl⟩
  | layer next hm => exact List.mem_append_right _ hl
  | page last req hp =>
    rw [List.mem_singleton.mp hl]
    exact List.mem_append_left _ (List.mem_map.mpr ⟨_, hp, rfl⟩)

/-- Whether requests keep their origin wherever a handler passes them on to. -/
structure IsTame (h : Handler) : Prop where
  inside : h.IsInside
  origin : ∀ node ∈ h.nodes, node.SparesOrigin
  remainder : ∀ node ∈ h.nodes, node.SparesRemainder

namespace IsTame

variable {h next : Handler} {req req' : Request}

theorem of_nodes (ht : h.IsTame) (hn : ∀ node ∈ next.nodes, node ∈ h.nodes) : next.IsTame :=
  ⟨fun node hm => ht.inside node (hn node hm), fun node hm => ht.origin node (hn node hm),
    fun node hm => ht.remainder node (hn node hm)⟩

theorem passes (ht : h.IsTame) (hp : h.Passes req next req') : next.IsTame := by
  have hnode (node : Handler) (hn : node ∈ next.nodes) :
      node.IsInner ∧ node.SparesOrigin ∧ node.SparesRemainder := by
    rcases hp.mem_nodes hn with hm | ⟨e, last, code, page, rfl, hpage, rfl⟩
    · exact ⟨ht.inside node hm, ht.origin node hm, ht.remainder node hm⟩
    · refine ⟨trivial, ⟨fun name hm => ?_, nofun⟩, nofun⟩
      exact (ht.origin _ (self_mem_nodes _)).names name (List.mem_flatMap.mpr ⟨_, hpage, hm⟩)
  exact ⟨fun node hn => (hnode node hn).1, fun node hn => (hnode node hn).2.1,
    fun node hn => (hnode node hn).2.2⟩

theorem sameOrigin (ht : h.IsTame) (hp : h.Passes req next req') : SameOrigin req req' :=
  hp.sameOrigin (ht.inside h h.self_mem_nodes) (ht.origin h h.self_mem_nodes)
    (ht.remainder h h.self_mem_nodes)

end IsTame

end Handler

/-! Where a request is forwarded, its reference is recorded, and its base becomes the mount point. -/

namespace Request

variable (req : Request) (uri : String)

/-- The reference is recorded unless there is a recorded one. -/
theorem get?_captured_capturedTo : (req.capturedTo uri true).attributes.get? Attribute.captured =
    some ((req.attributes.get? Attribute.captured).getD req.reference) := by
  have hh : Attribute.captured ≠ Attribute.history := by decide
  have hb : Attribute.captured ≠ Attribute.base := by decide
  simp only [capturedTo, if_true, set, get?_insert_of_ne _ hb, get?_insert_of_ne _ hh]
  unfold Keyed.insertIfAbsent Keyed.contains
  cases hc : req.attributes.get? Attribute.captured with
  | none => simp
  | some captured => simp [hc]

theorem get?_base_capturedTo (record : Bool) :
    (req.capturedTo uri record).attributes.get? Attribute.base =
      some ((req.attributes.get? Attribute.root).getD "") := by
  have hh : Attribute.root ≠ Attribute.history := by decide
  have hc : Attribute.root ≠ Attribute.captured := by decide
  cases record with
  | false => simp [capturedTo, set, get?_insert_of_ne _ hh]
  | true => simp [capturedTo, set, get?_insert_of_ne _ hh, get?_insertIfAbsent_of_ne _ hc]

end Request

namespace Forwarder

/-- The other application that requests are forwarded into, if it's not the current one. -/
def application? : Forwarder → Option String
  | capture c _ => c.application
  | dispatch _ _ _ _ => none

/-- The slot of the current application. -/
def place : Forwarder → Nat
  | capture _ application => application
  | dispatch _ _ _ application => application

theorem target_eq {f : Forwarder} (h : f.application? = none) : f.target = .slot f.place := by
  cases f with
  | capture c application =>
    have hc : c.application = none := h
    rw [target, hc]
    rfl
  | dispatch d uri table application => rfl

theorem names_handler (f : Forwarder) : f.handler.names = f.locals.map (·.1) := by
  cases f <;> rfl

variable {f : Forwarder} (hl : ∀ name ∈ f.locals.map (·.1), ¬IsReserved name)
  (ha : f.application? = none) (req : Request)

include hl ha

/-- The values that are attached before a request is forwarded within its application leave its
origin alone. -/
theorem sameOrigin_prepared : SameOrigin req (f.prepared req) := by
  cases f with
  | capture c application =>
    have hc : c.application.isSome = false := by rw [show c.application = none from ha]; rfl
    simp only [prepared, hc, Bool.false_eq_true, if_false]
    exact sameOrigin_setAll req hl
  | dispatch d uri table application =>
    refine .trans ?_ (sameOrigin_setAll _ hl)
    refine .trans ?_ (sameOrigin_set _ _ (by decide))
    exact .trans (sameOrigin_set _ _ (by decide)) (sameOrigin_set _ _ (by decide))

/-- What is known of the origin of a request that was forwarded within its application. -/
theorem origin_of_forward? (hr : f.record = true) {next : Request}
    (h : f.forward? req = some next) :
    next.attributes.get? Attribute.captured =
        some ((req.attributes.get? Attribute.captured).getD req.reference) ∧
      next.attributes.get? Attribute.root = req.attributes.get? Attribute.root ∧
      next.attributes.get? Attribute.base =
        some ((req.attributes.get? Attribute.root).getD "") ∧
      next.uri.path = f.path req := by
  have hp := sameOrigin_prepared hl ha req
  rw [f.forward?_eq req fun hm => hl _ hm (by decide)] at h
  split at h
  · cases h
  · obtain rfl := Option.some.inj h
    rw [hr]
    refine ⟨?_, ?_, ?_, ?_⟩
    · rw [Request.get?_captured_capturedTo, hp.captured, hp.reference]
    · exact (Request.get?_capturedTo _ _ _ (by decide) (by decide) (by decide)).trans hp.root
    · rw [Request.get?_base_capturedTo, hp.root]
    · rw [Request.uri_capturedTo]
      rfl

end Forwarder

end RequestRouting
