import RequestRouting.Proofs.Assembly.Origin

/-!
# Where requests get to

Handlers pass requests on, stand for others at slots, and forward requests, to other applications
too. Whatever a request was given on the way it has from then on, as attributes are overwritten, but
never taken away. The only ones that may do so are filters, and captures into other applications,
which take away the mount point.
-/

namespace RequestRouting

/-- Whether an attribute of a request has a value. -/
def Request.Has (req : Request) (name : String) : Prop := req.attributes.contains name = true

instance (req : Request) (name : String) : Decidable (req.Has name) :=
  inferInstanceAs (Decidable (_ = true))

namespace Request

variable {req : Request} {name : String}

theorem has_congr {req' : Request}
    (h : req'.attributes.get? name = req.attributes.get? name) : req'.Has name ↔ req.Has name := by
  rw [Has, Has, Keyed.contains, Keyed.contains, h]

theorem has_set_self (req : Request) (name value : String) : (req.set name value).Has name := by
  simp [Has, Keyed.contains, set]

theorem Has.set (h : req.Has name) (key value : String) : (req.set key value).Has name :=
  Keyed.contains_insert h key value

theorem Has.setAll (h : req.Has name) (values : List (String × String)) :
    (req.setAll values).Has name := Keyed.contains_insertMany h values

theorem Has.capturedTo (h : req.Has name) (uri : String) (record : Bool) :
    (req.capturedTo uri record).Has name := by
  unfold Request.capturedTo
  refine Has.set (Has.set ?_ _ _) _ _
  cases record with
  | false => exact h
  | true => exact Keyed.contains_insertIfAbsent h _ _

end Request

/-- The handler of an entry gets a request with the attributes it has. -/
theorem Router.has_enter {e : Entry} {req seen : Request} {name : String}
    (h : enter e req = some seen) (hr : req.Has name) (hb : name ≠ Attribute.base) :
    seen.Has name := by
  obtain ⟨values, -, rfl⟩ := Option.map_eq_some_iff.mp h
  have hvalues := hr.setAll values
  split
  · obtain ⟨attributes, hd, ha⟩ :=
      exists_descend (req.setAll values) ((Route.remainder? values).getD "")
    rw [hd]
    exact (Request.has_congr (ha name hb)).mpr hvalues
  · exact hvalues

/-- Whether no executor of a filter takes away the value of an attribute. -/
def Filter.Keeps (name : String) (f : Filter) : Prop :=
  ∀ extension executor, f.registry.executor? extension = some executor →
    ∀ tally invocation req req', executor.before tally invocation req = .continue req' →
      req.Has name → req'.Has name

namespace Forwarder

/-- Whether a dispatch forwards requests. -/
def isDispatch : Forwarder → Bool
  | capture _ _ => false
  | dispatch _ _ _ _ => true

variable {f : Forwarder} {req next : Request} {name : String}

theorem has_prepared (hr : req.Has name) (hn : name ≠ Attribute.root) :
    (f.prepared req).Has name := by
  cases f with
  | capture c application =>
    have hl := hr.setAll c.locals
    rw [prepared]
    split
    · exact (Request.has_congr (Keyed.get?_erase_of_ne _ hn)).mpr hl
    · exact hl
  | dispatch d uri table application => exact (((hr.set _ _).set _ _).set _ _).setAll _

/-- A request that is forwarded is what it was prepared to be, at the target. -/
theorem eq_capturedTo_of_forward? (h : f.forward? req = some next) :
    next = (f.prepared req).capturedTo (f.uri req) f.record := by
  rw [f.forward?_eq_captured?, Request.captured?_eq] at h
  split at h
  · cases h
  · exact (Option.some.inj h).symm

theorem has_forward? (h : f.forward? req = some next) (hr : req.Has name)
    (hn : name ≠ Attribute.root) : next.Has name := by
  obtain rfl := eq_capturedTo_of_forward? h
  exact (has_prepared hr hn).capturedTo _ _

/-- A request that is forwarded by a dispatch has its identifier. -/
theorem has_dispatchId (h : f.forward? req = some next) (hf : f.isDispatch = true) :
    next.Has Attribute.dispatchId := by
  obtain rfl := eq_capturedTo_of_forward? h
  refine Request.Has.capturedTo ?_ _ _
  cases f with
  | capture c application => cases hf
  | dispatch d uri table application =>
    exact (((req.has_set_self _ _).set _ _).set _ _).setAll _

end Forwarder

namespace Handler

/-- Whether no filter in a handler takes away the value of an attribute. -/
def Keeps (name : String) (h : Handler) : Prop :=
  ∀ node ∈ h.nodes, ∀ f, node.filter? = some f → f.Keeps name

variable {h next : Handler} {req req' : Request} {name : String}

theorem Keeps.passes (hk : h.Keeps name) (hp : h.Passes req next req') : next.Keeps name := by
  intro node hn f hf
  rcases hp.mem_nodes hn with hm | ⟨e, last, code, page, -, -, rfl⟩
  · exact hk node hm f hf
  · cases hf

/-- A handler passes on requests with the attributes they have. -/
theorem Passes.has (hp : h.Passes req next req') (hk : h.Keeps name) (hr : req.Has name)
    (hb : name ≠ Attribute.base) : req'.Has name := by
  cases hp with
  | chain c req hm => exact hr
  | router hs hh =>
    obtain ⟨e, -, henter⟩ := Router.route?_eq_some hs
    exact Router.has_enter henter hr hb
  | page next req hm => exact hr.set _ _
  | layer next hm =>
    rename_i middleware
    cases middleware with
    | basePath b =>
      obtain rfl : req' = b.apply req := hm
      exact (Request.has_congr (b.get?_apply req hb)).mpr hr
    | basicAuth a =>
      obtain ⟨user, rfl⟩ := BasicAuth.eq_of_authenticate hm
      exact hr.set _ _
    | attach values =>
      obtain rfl : req' = req.setAll values := hm
      exact hr.setAll values
    | applicationRoot =>
      obtain rfl : req' = req.enterApplication := hm
      exact hr.set _ _
    | filter f =>
      obtain ⟨extension, executor, tally, invocation, hx, hbefore⟩ := hm
      exact hk _ (self_mem_nodes _) f rfl extension executor hx tally invocation req req' hbefore hr
    | normalizePath _ | compress _ | staticFiles _ | cacheControl _ | cors _ | assets _ _
    | errorPages _ =>
      obtain rfl : req' = req := hm
      exact hr

end Handler

/-- A request on its way, with all that forwarded it. -/
inductive Travels (w : World) (start : Handler) (client : Request) :
    List Forwarder → Handler → Request → Prop where
  | start : Travels w start client [] start client
  | pass {forwarders : List Forwarder} {h next : Handler} {req req' : Request}
      (ht : Travels w start client forwarders h req) (hp : h.Passes req next req') :
      Travels w start client forwarders next req'
  | slot {forwarders : List Forwarder} {place : Nat} {h : Handler} {req : Request}
      (ht : Travels w start client forwarders (.slot place) req)
      (hh : w.handler? (.slot place) = some h) : Travels w start client forwarders h req
  | forward {forwarders : List Forwarder} {f : Forwarder} {h : Handler} {req req' : Request}
      (ht : Travels w start client forwarders f.handler req) (hf : f.forward? req = some req')
      (hh : w.handler? f.target = some h) : Travels w start client (forwarders ++ [f]) h req'

namespace Travels

variable {w : World} {start h : Handler} {client seen : Request} {forwarders : List Forwarder}
  {name : String}

theorem keeps (ht : Travels w start client forwarders h seen) (hs : start.Keeps name)
    (hw : ∀ target x, w.handler? target = some x → x.Keeps name) : h.Keeps name := by
  induction ht with
  | start => exact hs
  | pass _ hp ih => exact ih.passes hp
  | slot _ hh _ => exact hw _ _ hh
  | forward _ _ hh _ => exact hw _ _ hh

/-- Once a dispatch has forwarded a request, it has an identifier, wherever it gets to. -/
theorem has_dispatchId (ht : Travels w start client forwarders h seen)
    (hs : start.Keeps Attribute.dispatchId)
    (hw : ∀ target x, w.handler? target = some x → x.Keeps Attribute.dispatchId)
    (hd : ∃ f ∈ forwarders, f.isDispatch = true) : seen.Has Attribute.dispatchId := by
  have hb : Attribute.dispatchId ≠ Attribute.base := by decide
  have hr : Attribute.dispatchId ≠ Attribute.root := by decide
  induction ht with
  | start =>
    obtain ⟨f, hm, -⟩ := hd
    cases hm
  | pass ht hp ih => exact hp.has (ht.keeps hs hw) (ih hd) hb
  | slot _ _ ih => exact ih hd
  | @forward forwarders last h req req' _ hf _ ih =>
    obtain ⟨f, hm, hd⟩ := hd
    rcases List.mem_append.mp hm with hm | hm
    · exact Forwarder.has_forward? hf (ih ⟨f, hm, hd⟩) hr
    · obtain rfl := List.mem_singleton.mp hm
      exact Forwarder.has_dispatchId hf hd

end Travels

end RequestRouting
