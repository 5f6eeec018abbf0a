import RequestRouting.Proofs.Routing.Forwarding
import RequestRouting.Proofs.Serving.Congruence

/-!
# How requests are passed on

A handler passes a request on to others in its tree, as it is or changed on the way. Where that gets
to the end, the request is answered, or a jump is made: from a slot, or by forwarding the request.
What is said here about the handlers a request is passed on to is all there is to say about the
jumps that are made, as others make no difference to the answer.
-/

namespace RequestRouting

/-- Whether a middleware may pass a request on as another one. -/
def Middleware.Passes (req req' : Request) : Middleware → Prop
  | .basePath b => req' = b.apply req
  | .basicAuth a => a.authenticate req = .ok req'
  | .attach values => req' = req.setAll values
  | .filter f => ∃ extension executor tally invocation,
    f.registry.executor? extension = some executor ∧
      executor.before tally invocation req = .continue req'
  | .applicationRoot => req' = req.enterApplication
  | _ => req' = req

namespace Handler

/-- A handler may pass a request on to another one in its tree, whatever the world is like. Error
pages are captures that get the request with the status. -/
inductive Passes : Handler → Request → Handler → Request → Prop where
  | chain (c : Chain) {handlers : List Handler} {h : Handler} (req : Request)
      (hm : h ∈ handlers) : Passes (.chain c handlers) req h req
  | router {r : Router} {handlers : List Handler} {h : Handler} {req : Request}
      {turn chance : Nat} {s : Router.Selection} (hs : r.route? turn chance req = some s)
      (hh : handlers[s.place]? = some h) : Passes (.router r handlers) req h s.req
  | layer {middleware : Middleware} (next : Handler) {req req' : Request}
      (hm : middleware.Passes req req') : Passes (.layer middleware next) req next req'
  | page {e : ErrorPages} (next : Handler) {code : Nat} {page : Capture} (req : Request)
      (hp : (code, page) ∈ e.pages.entries) :
      Passes (.layer (.errorPages e) next) req (.capture page e.application)
        (req.set Attribute.error (toString code))

/-- What a handler passes a request on to is in its tree, or it's an error page. -/
theorem Passes.mem_nodes {h next node : Handler} {req req' : Request}
    (hp : h.Passes req next req') (hn : node ∈ next.nodes) :
    node ∈ h.nodes ∨ ∃ e last code page, h = .layer (.errorPages e) last ∧
      (code, page) ∈ e.pages.entries ∧ node = .capture page e.application := by
  cases hp with
  | chain c req hm =>
    exact Or.inl (List.mem_cons_of_mem _ (mem_nodesAll.mpr ⟨next, hm, hn⟩))
  | router hs hh =>
    have hm := mem_nodesAll.mpr ⟨next, List.mem_of_getElem? hh, hn⟩
    exact Or.inl (List.mem_cons_of_mem _ hm)
  | layer next hm => exact Or.inl (List.mem_cons_of_mem _ hn)
  | page last req hp => exact Or.inr ⟨_, last, _, _, rfl, hp, List.mem_singleton.mp hn⟩

/-- A request gets to a handler by being passed on. -/
inductive Reaches : Handler → Request → Handler → Request → Prop where
  | refl (h : Handler) (req : Request) : Reaches h req h req
  | step {h next last : Handler} {req req' seen : Request} (hp : Passes h req next req')
      (hr : Reaches next req' last seen) : Reaches h req last seen

/-- Whether two ways to make jumps are related where a handler makes them: from a slot for the request
it gets, and where it forwards the request for what becomes of it. -/
structure JumpsRelated (R : ∀ {α : Type}, Serving α → Serving α → Prop) (f g : Jump) (h : Handler)
    (req : Request) : Prop where
  slot : ∀ place, h = .slot place → R (f (.slot place) req) (g (.slot place) req)
  forward : ∀ forwarder : Forwarder, h = forwarder.handler → ∀ next,
    forwarder.forward? req = some next → R (f forwarder.target next) (g forwarder.target next)

end Handler

variable {f g : Jump} {req : Request}

/-! What answers a request by others is related if these are, for requests it may pass on. -/

namespace Serving.IsCongruence

variable {R : ∀ {α : Type}, Serving α → Serving α → Prop} {x y : Request → Serving Response}

theorem capture (hR : IsCongruence R) {c : Capture} {application : Nat}
    (h : ∀ next, c.forward? req = some next →
      R (f (Forwarder.capture c application).target next)
        (g (Forwarder.capture c application).target next)) :
    R (c.serve application f req) (c.serve application g req) := by
  unfold Forwarder.target at h
  unfold Capture.serve
  cases hc : c.application with
  | none | some name =>
    simp only [hc] at h ⊢
    refine hR.bind (hR.steady .get) fun w _ => ?_
    split
    · exact hR.pure _
    · cases hn : c.forward? req with
      | none => exact hR.pure _
      | some next => exact h next hn

theorem dispatch (hR : IsCongruence R) {d : Dispatch} {table application : Nat}
    (h : ∀ uri next, d.forward? uri req = some next →
      R (f (.slot application) next) (g (.slot application) next)) :
    R (d.serve table application f req) (d.serve table application g req) := by
  refine hR.bind (hR.steady .get) fun w _ => ?_
  cases ((w.tables.getD table {}).get? d.dispatcher).bind (·.uri) with
  | none => exact hR.pure _
  | some uri =>
    dsimp only
    cases hn : d.forward? uri req with
    | none => exact hR.pure _
    | some next => exact h uri next hn

theorem filter (hR : IsCongruence R) {filter : Filter}
    (h : ∀ req', (Middleware.filter filter).Passes req req' → R (x req') (y req')) :
    R (filter.serve x req) (filter.serve y req) := by
  refine hR.bind (hR.steady (isSteady_findFirst _ _)) fun document _ => ?_
  cases document with
  | none => exact hR.pure _
  | some document =>
    dsimp only
    cases he : filter.registry.executor? document.extension with
    | none => exact hR.pure _
    | some executor =>
      refine hR.bind (hR.steady (isSteady_before executor _ req)) fun flow hflow => ?_
      obtain ⟨w, w', hflow⟩ := hflow
      obtain ⟨tally, w'', hb, -⟩ := exists_before executor (filter.invocation document) req w
      obtain ⟨rfl, -⟩ := Prod.mk.inj (Option.some.inj (hb.symm.trans hflow))
      cases hc : executor.before tally (filter.invocation document) req with
      | stop res => exact hR.pure _
      | «continue» req' => exact hR.bind (h req' ⟨_, _, _, _, he, hc⟩) fun res _ => hR.pure _

theorem errorPages (hR : IsCongruence R) {e : ErrorPages} (hn : R (x req) (y req))
    (h : ∀ code page, (code, page) ∈ e.pages.entries →
      R (page.serve e.application f (req.set Attribute.error (toString code)))
        (page.serve e.application g (req.set Attribute.error (toString code)))) :
    R (e.serve f x req) (e.serve g y req) := by
  refine hR.bind hn fun res _ => ?_
  split
  · exact hR.pure _
  · cases hp : e.pages.get? res.status.code with
    | none => exact hR.pure _
    | some page => exact hR.bind (h _ _ (Keyed.mem_of_find? hp)) fun page _ => hR.pure _

/-- A middleware hands a request to the next handler as it passes it on, and to its error pages. -/
theorem middleware (hR : IsCongruence R) {m : Middleware}
    (hn : ∀ req', m.Passes req req' → R (x req') (y req'))
    (hp : ∀ e, m = .errorPages e → ∀ code page, (code, page) ∈ e.pages.entries →
      R (page.serve e.application f (req.set Attribute.error (toString code)))
        (page.serve e.application g (req.set Attribute.error (toString code)))) :
    R (m.serve f x req) (m.serve g y req) := by
  cases m with
  | basePath b => exact hn _ rfl
  | attach values => exact hn _ rfl
  | applicationRoot => exact hn _ rfl
  | filter _ => exact hR.filter hn
  | errorPages e => exact hR.errorPages (hn req rfl) (hp e rfl)
  | basicAuth a =>
    dsimp only [Middleware.serve]
    cases ha : a.authenticate req with
    | ok req' => exact hn req' ha
    | error res => exact hR.pure _
  | normalizePath n =>
    dsimp only [Middleware.serve]
    split
    · exact hR.pure _
    · exact hn req rfl
  | staticFiles s =>
    refine hR.bind (hR.steady .get) fun w _ => ?_
    split
    · exact hR.pure _
    · exact hn req rfl
  | compress _ => exact hR.bind (hn req rfl) fun res _ => hR.pure _
  | cors _ => exact hR.bind (hn req rfl) fun res _ => hR.pure _
  | cacheControl _ =>
    exact hR.bind (hn req rfl) fun res _ => hR.bind (hR.steady .get) fun w _ => hR.pure _
  | assets a place =>
    exact hR.bind (hR.steady fun _ => ⟨_, _, rfl, rfl, rfl, rfl⟩) fun _ _ => hn req rfl

/-- To be the same is a relation that serving respects. -/
theorem eq : IsCongruence Eq where
  steady := fun _ => rfl
  bind := fun {α β x y f g} h hfg => by
    subst h
    funext w
    rw [bind_apply, bind_apply]
    cases hx : x w with
    | none => rfl
    | some p => exact congrFun (hfg p.1 ⟨w, p.2, hx⟩) p.2

end Serving.IsCongruence

namespace Handler

theorem runAll_eq_map (jump : Jump) (handlers : List Handler) :
    runAll jump handlers = handlers.map fun h req => h.run jump req := by
  induction handlers with
  | nil => rfl
  | cons h rest ih => rw [runAll, ih, List.map_cons]

end Handler

namespace Serving.IsCongruence

open Handler (JumpsRelated runAll_eq_map)

variable {R : ∀ {α : Type}, Serving α → Serving α → Prop}

theorem captureOf (hR : IsCongruence R) {c : Capture} {application : Nat}
    (h : (Handler.capture c application).JumpsRelated R f g req) :
    R (c.serve application f req) (c.serve application g req) :=
  hR.capture (h.forward (.capture c application) rfl)

mutual

/-- A handler makes no jumps but those from where a request gets to by being passed on: if these are
related, so is the answer. -/
theorem run (hR : IsCongruence R) : (h : Handler) → (req : Request) →
    (∀ last seen, h.Reaches req last seen → last.JumpsRelated R f g seen) →
      R (h.run f req) (h.run g req)
  | .status s, _, _ => hR.pure _
  | .redirect uri s, _, _ => hR.pure _
  | .resource r, req, _ => hR.steady (isSteady_call r req)
  | .documents d, req, _ => hR.steady (d.isSteady_serve req)
  | .capture c application, req, hj => hR.captureOf (hj _ _ (.refl _ req))
  | .dispatch d table application, req, hj => hR.dispatch fun uri =>
    (hj _ _ (.refl _ req)).forward (.dispatch d uri table application) rfl
  | .slot place, req, hj => (hj _ _ (.refl _ req)).slot place rfl
  | .chain c handlers, req, hj => by
    rw [Handler.run, Handler.run, runAll_eq_map, runAll_eq_map]
    exact hR.chain c.place c.ttl fun handler hm => runAll hR handlers handler hm req
      fun last seen hr => hj last seen (.step (.chain c req hm) hr)
  | .router r handlers, req, hj => by
    rw [Handler.run, Handler.run, runAll_eq_map, runAll_eq_map]
    refine hR.router fun turn chance s handler hs hh => ?_
    exact runAll hR handlers handler (List.mem_of_getElem? hh) s.req fun last seen hr =>
      hj last seen (.step (.router hs hh) hr)
  | .layer middleware next, req, hj => by
    refine hR.middleware (fun req' hm => ?_) fun e he code page hp => ?_
    · exact run hR next req' fun last seen hr => hj last seen (.step (.layer next hm) hr)
    · subst he
      exact hR.captureOf (hj _ _ (.step (.page next req hp) (.refl _ _)))
  termination_by structural h => h

theorem runAll (hR : IsCongruence R) : (handlers : List Handler) → ∀ handler ∈ handlers,
    ∀ req : Request, (∀ last seen, handler.Reaches req last seen →
      last.JumpsRelated R f g seen) → R (handler.run f req) (handler.run g req)
  | [] => fun _ hm => absurd hm List.not_mem_nil
  | first :: rest => List.forall_mem_cons.mpr ⟨run hR first, runAll hR rest⟩
  termination_by structural l => l

end

end Serving.IsCongruence

/-- If the jumps a handler makes are the same, so is the answer. -/
theorem Handler.run_congr (h : Handler) (req : Request)
    (hj : ∀ last seen, h.Reaches req last seen → last.JumpsRelated Eq f g seen) :
    h.run f req = h.run g req := Serving.IsCongruence.eq.run h req hj

end RequestRouting
