import RequestRouting.Proofs.Serving.Passing

/-!
# Handlers under different jumps

A handler only depends on how jumps are made at its own links, and for the requests that are handed
to these: at a slot the history of the request is the one it came with, and where a request is
forwarded the path is added to it. If two ways to make jumps agree there, they agree on the answer
of the handler. In particular the handler answers at all.
-/

namespace RequestRouting

namespace Serving

variable {α : Type} {w₀ : World}

/-- Two ways to serve a request agree if they give the same answer, with the same effects, and leave
the handlers as they are. -/
def Agree (w₀ : World) (x y : Serving α) : Prop :=
  ∀ w, w₀.SameHandlers w → ∃ a w', x w = some (a, w') ∧ y w = some (a, w') ∧ w₀.SameHandlers w'

namespace Agree

theorem pure (a : α) : Agree w₀ (pure a : Serving α) (Pure.pure a) := fun w h => ⟨a, w, rfl, rfl, h⟩

/-- What is read from the world has its handlers. -/
theorem get_bind {f g : World → Serving α}
    (h : ∀ w, w₀.SameHandlers w → Agree w₀ (f w) (g w)) :
    Agree w₀ ((get : Serving World) >>= f) ((get : Serving World) >>= g) := by
  intro w hw
  obtain ⟨b, w₁, hf, hg, hw₁⟩ := h w hw w hw
  exact ⟨b, w₁, by simp [hf], by simp [hg], hw₁⟩

end Agree

/-- To agree is a relation that serving respects. -/
theorem isCongruence_agree (w₀ : World) : IsCongruence (Agree w₀) where
  steady := fun hx w hw => by
    obtain ⟨a, w', ha, hw'⟩ := hx w
    exact ⟨a, w', ha, ha, hw.trans hw'⟩
  bind := fun hxy hfg w hw => by
    obtain ⟨a, w₁, hx, hy, hw₁⟩ := hxy w hw
    obtain ⟨b, w₂, hf, hg, hw₂⟩ := hfg a ⟨w, w₁, hx⟩ w₁ hw₁
    exact ⟨b, w₂, by simp [hx, hf], by simp [hy, hg], hw₂⟩

end Serving

open Serving

section Run

variable {w₀ : World} {f g : Jump} {history : String}

/-- Whether two ways to make jumps agree at a link: at a slot for requests with the given history,
and where requests are forwarded, for those that are forwarded with it. -/
def Link.Agree (w₀ : World) (f g : Jump) (history : String) (link : Link) : Prop :=
  (∀ place, link = .slot place → ∀ req : Request, req.history = history →
    Serving.Agree w₀ (f (.slot place) req) (g (.slot place) req)) ∧
  ∀ forwarder, link.forwarder? w₀ = some forwarder → ∀ req req' : Request,
    req.history = history → forwarder.forward? req = some req' →
      Serving.Agree w₀ (f forwarder.target req') (g forwarder.target req')

theorem Capture.agree_serve {c : Capture} {application : Nat} {req : Request}
    (h : Link.Agree w₀ f g history (.capture c application)) (hh : req.history = history) :
    Agree w₀ (c.serve application f req) (c.serve application g req) :=
  (isCongruence_agree w₀).capture fun next hn => h.2 _ rfl req next hh hn

/-- A dispatch looks its URI up in the world. -/
theorem Dispatch.agree_serve {d : Dispatch} {table application : Nat} {req : Request}
    (h : Link.Agree w₀ f g history (.dispatch d table application)) (hh : req.history = history) :
    Agree w₀ (d.serve table application f req) (d.serve table application g req) := by
  refine Agree.get_bind fun w hw => ?_
  rw [← hw.tables]
  cases hu : ((w₀.tables.getD table {}).get? d.dispatcher).bind (·.uri) with
  | none => exact .pure _
  | some uri =>
    dsimp only
    have hf : Link.forwarder? w₀ (.dispatch d table application) =
        some (.dispatch d uri table application) := by
      rw [Link.forwarder?, hu]
      rfl
    cases hn : d.forward? uri req with
    | none => exact .pure _
    | some next => exact h.2 _ hf req next hh hn

/-- A middleware passes a request on with the history it has, unless it's configured to write to
it. -/
theorem Middleware.Passes.keepsHistory {m : Middleware} {next : Handler}
    (hk : (Handler.layer m next).SparesHistory) {req req' : Request} (h : m.Passes req req') :
    Request.KeepsHistory req req' := by
  cases m with
  | basePath b =>
    obtain rfl : req' = b.apply req := h
    exact b.keepsHistory_apply req
  | basicAuth a => exact BasicAuth.keepsHistory_authenticate h
  | attach values =>
    obtain rfl : req' = req.setAll values := h
    exact Request.keepsHistory_setAll req hk.writes
  | filter f =>
    obtain ⟨extension, executor, tally, invocation, hx, hb⟩ := h
    exact hk.filter f rfl _ _ hx _ _ _ _ hb
  | applicationRoot =>
    obtain rfl : req' = req.enterApplication := h
    exact req.keepsHistory_enterApplication
  | normalizePath _ | compress _ | staticFiles _ | cacheControl _ | cors _ | assets _ _
  | errorPages _ =>
    obtain rfl : req' = req := h
    exact .refl _

namespace Handler

mutual

/-- A handler gives the same answer if jumps agree at all of its links. -/
theorem agree_run : (h : Handler) → h.KeepsHistory →
    (∀ link ∈ h.links, link.Agree w₀ f g history) → ∀ req : Request, req.history = history →
      Agree w₀ (h.run f req) (h.run g req)
  | .status s, _, _, req, _ => .pure _
  | .redirect uri s, _, _, req, _ => .pure _
  | .resource r, _, _, req, _ => (isCongruence_agree w₀).steady (isSteady_call r req)
  | .documents d, _, _, req, _ => (isCongruence_agree w₀).steady (d.isSteady_serve req)
  | .capture c application, _, hl, req, hh =>
    Capture.agree_serve (hl _ (List.mem_singleton_self _)) hh
  | .dispatch d table application, _, hl, req, hh =>
    Dispatch.agree_serve (hl _ (List.mem_singleton_self _)) hh
  | .slot place, _, hl, req, hh => (hl _ (List.mem_singleton_self _)).1 place rfl req hh
  | .chain c handlers, hk, hl, req, hh => by
    obtain ⟨-, hnodes⟩ := List.forall_mem_cons.mp hk
    rw [Handler.run, Handler.run, runAll_eq_map, runAll_eq_map]
    exact (isCongruence_agree w₀).chain c.place c.ttl fun h hm =>
      agree_runAll handlers hnodes hl h hm req hh
  | .router r handlers, hk, hl, req, hh => by
    obtain ⟨hr, hnodes⟩ := List.forall_mem_cons.mp hk
    rw [Handler.run, Handler.run, runAll_eq_map, runAll_eq_map]
    refine (isCongruence_agree w₀).router fun turn chance s h hs hm => ?_
    obtain ⟨e, he, henter⟩ := Router.route?_eq_some hs
    have hreq := Router.keepsHistory_enter
      (fun hm => hr.writes (List.mem_flatMap.mpr ⟨e, he, hm⟩)) henter
    exact agree_runAll handlers hnodes hl h (List.mem_of_getElem? hm) s.req
      (hreq.history_eq.trans hh)
  | .layer middleware next, hk, hl, req, hh => by
    obtain ⟨hm, hnodes⟩ := List.forall_mem_cons.mp hk
    refine (isCongruence_agree w₀).middleware (fun req' hp => ?_) fun e he code page hp => ?_
    · exact next.agree_run hnodes (fun link hlink => hl link (List.mem_append_right _ hlink)) req'
        ((hp.keepsHistory hm).history_eq.trans hh)
    · subst he
      have hpage : .capture page e.application ∈ e.links := List.mem_map_of_mem hp
      exact Capture.agree_serve (hl _ (List.mem_append_left _ hpage))
        ((Request.keepsHistory_set req (by decide) _).history_eq.trans hh)
  termination_by structural h => h

theorem agree_runAll : (handlers : List Handler) →
    (∀ node ∈ nodesAll handlers, node.SparesHistory) →
    (∀ link ∈ linksAll handlers, link.Agree w₀ f g history) → ∀ h ∈ handlers, ∀ req : Request,
      req.history = history → Agree w₀ (h.run f req) (h.run g req)
  | [], _, _ => fun _ hm => absurd hm List.not_mem_nil
  | first :: rest, hk, hl => by
    obtain ⟨hf, hr⟩ := List.forall_mem_append.mp hk
    exact List.forall_mem_cons.mpr
      ⟨first.agree_run hf fun link hm => hl link (List.mem_append_left _ hm),
        agree_runAll rest hr fun link hm => hl link (List.mem_append_right _ hm)⟩
  termination_by structural l => l

end

end Handler

end Run

end RequestRouting
