import RequestRouting.Proofs.Assembly.Travels

/-!
# Rendering error pages

A request for an error page has the attribute for the status, and keeps it wherever it's passed on or
forwarded to, also in other applications. So error pages hand on what is answered below them, and
rendering an error page is the same as if there were no error pages at all.
-/

namespace RequestRouting

open Serving (IsCongruence)

namespace Handler

mutual

/-- A handler without the error pages in its tree. -/
def withoutPages : Handler → Handler
  | .chain c handlers => .chain c (withoutPagesAll handlers)
  | .router r handlers => .router r (withoutPagesAll handlers)
  | .layer (.errorPages _) next => next.withoutPages
  | .layer middleware next => .layer middleware next.withoutPages
  | leaf => leaf
  termination_by structural h => h

/-- Several handlers without the error pages in their trees. -/
def withoutPagesAll : List Handler → List Handler
  | [] => []
  | h :: rest => h.withoutPages :: withoutPagesAll rest
  termination_by structural l => l

end

theorem withoutPagesAll_eq_map (handlers : List Handler) :
    withoutPagesAll handlers = handlers.map withoutPages := by
  induction handlers with
  | nil => rfl
  | cons h rest ih => rw [withoutPagesAll, ih, List.map_cons]

end Handler

/-- Makes a jump to a handler without error pages. -/
def World.jumpWithoutPages : Nat → Jump
  | 0, _, _ => failure
  | fuel + 1, target, req => do
    match (← get).handler? target with
    | some handler => handler.withoutPages.run (jumpWithoutPages fuel) req
    | none => return .ofStatus .notFound

namespace Serving

variable {α β : Type} {w₀ : World}

/-- Two ways to serve a request are alike if they do the same, and leave the handlers as they are,
also where fuel runs out. -/
def Alike (w₀ : World) (x y : Serving α) : Prop :=
  ∀ w, w₀.SameHandlers w → x w = y w ∧ ∀ a w', x w = some (a, w') → w₀.SameHandlers w'

/-- To be alike is a relation that serving respects. -/
theorem isCongruence_alike (w₀ : World) : IsCongruence (Alike w₀) where
  steady := fun hx w hw => by
    refine ⟨rfl, fun b w'' hb => ?_⟩
    obtain ⟨a, w', ha, hw'⟩ := hx w
    obtain ⟨-, rfl⟩ := Prod.mk.inj (Option.some.inj (ha.symm.trans hb))
    exact hw.trans hw'
  bind := fun {α β x y f g} hxy hfg w hw => by
    obtain ⟨heq, hkeep⟩ := hxy w hw
    rw [bind_apply, bind_apply, ← heq]
    cases hx : x w with
    | none => exact ⟨rfl, fun _ _ h => absurd h (by simp)⟩
    | some p => exact hfg p.1 ⟨w, p.2, hx⟩ p.2 (hkeep p.1 p.2 hx)

/-- What is read from the world has its handlers. -/
theorem Alike.get_bind {f g : World → Serving α}
    (h : ∀ w, w₀.SameHandlers w → Alike w₀ (f w) (g w)) :
    Alike w₀ ((get : Serving World) >>= f) ((get : Serving World) >>= g) :=
  fun w hw => h w hw w hw

theorem alike_failure : Alike w₀ (failure : Serving α) failure :=
  fun _ _ => ⟨rfl, fun _ _ h => nomatch h⟩

end Serving

open Serving (Alike isCongruence_alike)

/-- Jumps leave the handlers as they are. -/
theorem World.alike_jump (w₀ : World) (fuel : Nat) (target : Target) (req : Request) :
    Alike w₀ (jump fuel target req) (jump fuel target req) := by
  induction fuel generalizing target req with
  | zero => exact Serving.alike_failure
  | succ fuel ih =>
    refine Alike.get_bind fun w hw => ?_
    cases w.handler? target with
    | none => exact (isCongruence_alike w₀).pure _
    | some handler =>
      exact (isCongruence_alike w₀).run handler req fun last seen _ =>
        ⟨fun _ _ => ih _ _, fun _ _ _ _ => ih _ _⟩

/-- Handlers leave the handlers as they are. -/
theorem Handler.sameHandlers_run {h : Handler} {fuel : Nat} {req : Request} {w w' : World}
    {res : Response} (hr : h.run (World.jump fuel) req w = some (res, w')) : w.SameHandlers w' := by
  have halike := (isCongruence_alike w).run h req fun last seen _ =>
    ⟨fun _ _ => w.alike_jump fuel _ _, fun _ _ _ _ => w.alike_jump fuel _ _⟩
  exact (halike w (.refl w)).2 res w' hr

section Pages

variable {R : ∀ {α : Type}, Serving α → Serving α → Prop} {f g : Jump} {req : Request}

/-- Error pages hand on a request that has an error. -/
theorem ErrorPages.serve_of_has (e : ErrorPages) (jump : Jump) (next : Request → Serving Response)
    (hr : req.Has Attribute.error) : e.serve jump next req = next req := by
  unfold serve
  rw [show req.attributes.contains Attribute.error = true from hr]
  exact bind_pure (next req)

namespace Handler

mutual

/-- As long as no filter takes the error of a request away, it makes no difference to a handler that
gets it whether there are error pages, in the handler or where it jumps to. -/
theorem run_withoutPages (hR : IsCongruence R)
    (hj : ∀ target next, next.Has Attribute.error → R (f target next) (g target next)) :
    (h : Handler) → h.Keeps Attribute.error → ∀ req : Request, req.Has Attribute.error →
      R (h.run f req) (h.withoutPages.run g req)
  | .status s, _, _, _ => hR.pure _
  | .redirect uri s, _, _, _ => hR.pure _
  | .resource r, _, req, _ => hR.steady (Serving.isSteady_call r req)
  | .documents d, _, req, _ => hR.steady (d.isSteady_serve req)
  | .capture c application, _, req, hr => hR.capture fun next hn =>
    hj _ next (Forwarder.has_forward? (f := .capture c application) hn hr (by decide))
  | .dispatch d table application, _, req, hr => hR.dispatch fun uri next hn =>
    hj _ next (Forwarder.has_forward? (f := .dispatch d uri table application) hn hr (by decide))
  | .slot place, _, req, hr => hj _ req hr
  | .chain c handlers, hk, req, hr => by
    rw [withoutPages, Handler.run, Handler.run, runAll_eq_map, runAll_eq_map,
      withoutPagesAll_eq_map, List.map_map]
    exact hR.chain c.place c.ttl fun h hm =>
      runAll_withoutPages hR hj handlers h hm (hk.passes (.chain c req hm)) req hr
  | .router r handlers, hk, req, hr => by
    rw [withoutPages, Handler.run, Handler.run, runAll_eq_map, runAll_eq_map,
      withoutPagesAll_eq_map, List.map_map]
    refine hR.router fun turn chance s h hs hh => ?_
    have hp : (Handler.router r handlers).Passes req h s.req := .router hs hh
    exact runAll_withoutPages hR hj handlers h (List.mem_of_getElem? hh) (hk.passes hp) s.req
      (hp.has hk hr (by decide))
  | .layer middleware next, hk, req, hr => by
    have hnext (req' : Request) (hm : middleware.Passes req req') :
        R (next.run f req') (next.withoutPages.run g req') := by
      have hp : (Handler.layer middleware next).Passes req next req' := .layer next hm
      exact run_withoutPages hR hj next (hk.passes hp) req' (hp.has hk hr (by decide))
    cases middleware with
    | errorPages e =>
      rw [withoutPages, Handler.run]
      dsimp only [Middleware.serve]
      rw [e.serve_of_has _ _ hr]
      exact hnext req rfl
    | _ => exact hR.middleware hnext (by rintro _ ⟨⟩)
  termination_by structural h => h

theorem runAll_withoutPages (hR : IsCongruence R)
    (hj : ∀ target next, next.Has Attribute.error → R (f target next) (g target next)) :
    (handlers : List Handler) → ∀ h ∈ handlers, h.Keeps Attribute.error → ∀ req : Request,
      req.Has Attribute.error → R (h.run f req) (h.withoutPages.run g req)
  | [] => fun _ hm => absurd hm List.not_mem_nil
  | first :: rest => List.forall_mem_cons.mpr
    ⟨run_withoutPages hR hj first, runAll_withoutPages hR hj rest⟩
  termination_by structural l => l

end

end Handler

end Pages

/-- As long as no filter takes the error of a request away, it makes no difference to where it gets
to whether there are error pages. -/
theorem World.alike_jumpWithoutPages {w₀ : World}
    (hk : ∀ target x, w₀.handler? target = some x → x.Keeps Attribute.error) (fuel : Nat)
    (target : Target) (req : Request) (hr : req.Has Attribute.error) :
    Alike w₀ (jump fuel target req) (jumpWithoutPages fuel target req) := by
  induction fuel generalizing target req with
  | zero => exact Serving.alike_failure
  | succ fuel ih =>
    refine Alike.get_bind fun w hw => ?_
    cases hh : w.handler? target with
    | none => exact (isCongruence_alike w₀).pure _
    | some handler =>
      rw [hw.handler?_eq] at hh
      exact handler.run_withoutPages (isCongruence_alike w₀) ih (hk target handler hh) req hr

/-- As long as no filter takes the error of a request away, a handler answers it as if there were no
error pages at all. -/
theorem Handler.run_eq_withoutPages {h : Handler} {w : World}
    (hk : ∀ target x, w.handler? target = some x → x.Keeps Attribute.error)
    (hh : h.Keeps Attribute.error) (fuel : Nat) {req : Request} (hr : req.Has Attribute.error) :
    h.run (World.jump fuel) req w = h.withoutPages.run (World.jumpWithoutPages fuel) req w :=
  (h.run_withoutPages (isCongruence_alike w) (World.alike_jumpWithoutPages hk fuel) hh req hr w
    (.refl w)).1

end RequestRouting
