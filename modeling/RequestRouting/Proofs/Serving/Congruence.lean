import RequestRouting.Proofs.Routing.Stack
import RequestRouting.Proofs.Serving.Links

/-!
# Relations between ways to serve requests

Requests are served in steps. Some of them leave all handlers as they are and always come to an end:
what is read from documents, counted, or remembered. Others are the handlers that a request is handed
to. A relation between ways to serve requests that holds of the former, and is kept by putting steps
one after the other, is kept by chains and routers, too: it holds of what they make of handlers that
it holds of.
-/

namespace RequestRouting

namespace Serving

variable {α β : Type}

/-- Whether an action comes to an end in all worlds, and leaves their handlers as they are. -/
def IsSteady (x : Serving α) : Prop := ∀ w, ∃ a w', x w = some (a, w') ∧ w.SameHandlers w'

/-- Whether an action has a result in some world. -/
def Returns (x : Serving α) (a : α) : Prop := ∃ w w', x w = some (a, w')

/-- Whether a relation holds of steady actions, and is kept by putting actions one after the
other. -/
structure IsCongruence (R : ∀ {α : Type}, Serving α → Serving α → Prop) : Prop where
  steady : ∀ {α : Type} {x : Serving α}, IsSteady x → R x x
  bind : ∀ {α β : Type} {x y : Serving α} {f g : α → Serving β}, R x y →
    (∀ a, Returns x a → R (f a) (g a)) → R (x >>= f) (y >>= g)

namespace IsSteady

variable {x : Serving α} {f : α → Serving β}

theorem pure (a : α) : IsSteady (Pure.pure a : Serving α) := fun w => ⟨a, w, rfl, .refl w⟩

theorem bind (hx : IsSteady x) (hf : ∀ a, IsSteady (f a)) : IsSteady (x >>= f) := by
  intro w
  obtain ⟨a, w₁, hxa, hw₁⟩ := hx w
  obtain ⟨b, w₂, hfb, hw₂⟩ := hf a w₁
  exact ⟨b, w₂, by simp [hxa, hfb], hw₁.trans hw₂⟩

theorem get : IsSteady (MonadState.get : Serving World) := fun w => ⟨w, w, rfl, .refl w⟩

end IsSteady

/-! Documents, resources and executors leave the handlers as they are. -/

theorem isSteady_find (library : Library) (name : String) : IsSteady (find library name) :=
  fun _ => ⟨_, _, rfl, rfl, rfl, rfl⟩

theorem isSteady_findFirst (libraries : List Library) (name : String) :
    IsSteady (findFirst libraries name) := by
  induction libraries with
  | nil => exact .pure _
  | cons library rest ih =>
    refine (isSteady_find library name).bind fun document => ?_
    cases document with
    | none => exact ih
    | some document => exact .pure _

theorem isSteady_call (resource : Resource) (req : Request) : IsSteady (call resource req) :=
  fun _ => ⟨_, _, rfl, rfl, rfl, rfl⟩

theorem isSteady_execute (executor : Executor) (invocation : Invocation) (req : Request) :
    IsSteady (execute executor invocation req) := fun _ => ⟨_, _, rfl, rfl, rfl, rfl⟩

/-- What a filter does before the next handler is decided by its executor. -/
theorem exists_before (executor : Executor) (invocation : Invocation) (req : Request) (w : World) :
    ∃ tally w', before executor invocation req w =
      some (executor.before tally invocation req, w') ∧ w.SameHandlers w' := by
  refine ⟨w.tallies.getD executor.place {}, ?_⟩
  cases hb : executor.before (w.tallies.getD executor.place {}) invocation req with
  | «continue» req' =>
    refine ⟨w, ?_, .refl w⟩
    simp only [before, tally, bind_apply, get_apply, pure_apply, Option.bind_some, hb]
  | stop res =>
    refine ⟨{ w with tallies := w.tallies.modify executor.place fun t =>
      { t with stopped := t.stopped + 1 } }, ?_, rfl, rfl, rfl⟩
    simp only [before, tally, bind_apply, get_apply, pure_apply, Option.bind_some, hb]
    rfl

theorem isSteady_before (executor : Executor) (invocation : Invocation) (req : Request) :
    IsSteady (before executor invocation req) := by
  intro w
  obtain ⟨tally, w', hb, hw'⟩ := exists_before executor invocation req w
  exact ⟨_, w', hb, hw'⟩

theorem isSteady_update (place : Nat) (change : Chain.Cache → Chain.Cache) :
    IsSteady ((chainAccess place).update change) := fun _ => ⟨_, _, rfl, rfl, rfl, rfl⟩

end Serving

open Serving (IsSteady IsCongruence)

theorem Documents.isSteady_serve (d : Documents) (req : Request) : IsSteady (d.serve req) := by
  have hfind : IsSteady (d.find req.uri.path) := by
    refine (Serving.isSteady_find d.source req.uri.path).bind fun document => ?_
    cases document with
    | some document => exact .pure _
    | none =>
      dsimp only
      split
      · exact Serving.isSteady_findFirst _ _
      · exact .pure _
  refine hfind.bind fun document => ?_
  cases document with
  | none => exact .pure _
  | some document =>
    dsimp only
    split
    · exact .pure _
    · exact .pure _
    · split
      · exact .pure _
      · exact (Serving.isSteady_execute _ _ req).bind fun res => .pure _

theorem World.sameHandlers_chance (w : World) (chance : Nat) : w.SameHandlers { w with chance } :=
  ⟨rfl, rfl, rfl⟩

namespace Router

theorem sameHandlers_advance (r : Router) (s : Option Selection) (w : World) :
    w.SameHandlers (r.advance s w) := by
  have hd : w.SameHandlers (if r.mode = .random then w.draw.2 else w) := by
    split
    · exact w.sameHandlers_chance _
    · exact .refl w
  unfold advance
  dsimp only
  split
  · exact ⟨hd.slots, hd.tables, hd.applications⟩
  · exact hd

/-- Selects a handler for a request. -/
def choose (r : Router) (req : Request) : Serving (Option Selection) := fun w =>
  some (r.select? req w, r.advance (r.select? req w) w)

theorem isSteady_choose (r : Router) (req : Request) : IsSteady (r.choose req) := fun w =>
  ⟨_, _, rfl, r.sameHandlers_advance _ w⟩

/-- A router selects a handler, and hands the request to it. -/
theorem serve_eq_choose (r : Router) (handlers : List (Request → Serving Response)) (req : Request) :
    r.serve handlers req = r.choose req >>= fun s =>
      match s with
      | none => return .ofStatus .notFound
      | some s => ((handlers[s.place]?).getD fun _ => return .ofStatus .notFound) s.req := by
  funext w
  rw [serve_apply, Serving.bind_apply, choose, Option.bind_some]
  cases r.select? req w <;> rfl

theorem exists_of_returns_choose {r : Router} {req : Request} {s : Selection}
    (h : Serving.Returns (r.choose req) (some s)) :
    ∃ turn chance, r.route? turn chance req = some s := by
  obtain ⟨w, w', h⟩ := h
  obtain ⟨hs, -⟩ := Prod.mk.inj (Option.some.inj h)
  exact ⟨_, _, hs⟩

end Router

namespace Serving.IsCongruence

variable {R : ∀ {α : Type}, Serving α → Serving α → Prop} {α : Type} {handlers : List α}
  {x y : α → Request → Serving Response} {req : Request}

theorem pure (hR : IsCongruence R) {α : Type} (a : α) : R (Pure.pure a) (Pure.pure a : Serving α) :=
  hR.steady (.pure a)

theorem search (hR : IsCongruence R) (place : Nat) (ttl : Duration) (reference : String)
    (tried : Option Nat) (h : ∀ a ∈ handlers, R (x a req) (y a req)) (index : Nat)
    (last : Option Response) :
    R (Chain.search (chainAccess place) ttl reference tried req index last (handlers.map x))
      (Chain.search (chainAccess place) ttl reference tried req index last (handlers.map y)) := by
  induction handlers generalizing index last with
  | nil => exact hR.pure _
  | cons a rest ih =>
    obtain ⟨ha, hrest⟩ := List.forall_mem_cons.mp h
    simp only [List.map_cons, Chain.search]
    split
    · exact ih hrest _ _
    · refine hR.bind ha fun res _ => ?_
      split
      · exact ih hrest _ _
      · split
        · refine hR.steady ?_
          exact IsSteady.bind (IsSteady.get.bind fun _ => .pure _) fun now =>
            (isSteady_update place _).bind fun _ => .pure _
        · exact hR.pure _

theorem isSteady_winner? (place : Nat) (ttl : Duration) (reference : String) :
    IsSteady (Chain.winner? (chainAccess place) ttl reference) := by
  unfold Chain.winner?
  split
  · exact .pure _
  · refine IsSteady.bind (IsSteady.get.bind fun _ => .pure _) fun cache => ?_
    refine IsSteady.bind (IsSteady.get.bind fun _ => .pure _) fun now => ?_
    split
    · exact .pure _
    · exact (isSteady_update place _).bind fun _ => .pure _

/-- A chain hands a request to its handlers as it is. -/
theorem chain (hR : IsCongruence R) (place : Nat) (ttl : Duration)
    (h : ∀ a ∈ handlers, R (x a req) (y a req)) :
    R (Chain.serve (chainAccess place) ttl (handlers.map x) req)
      (Chain.serve (chainAccess place) ttl (handlers.map y) req) := by
  refine hR.bind (hR.steady (isSteady_winner? place ttl _)) fun winner _ => ?_
  have hsearch := hR.search place ttl req.reference winner h 0 none
  cases winner with
  | none => exact hsearch
  | some index =>
    simp only [Option.bind_some, List.getElem?_map]
    cases ha : handlers[index]? with
    | none => exact hsearch
    | some a =>
      refine hR.bind (h a (List.mem_of_getElem? ha)) fun res _ => ?_
      have hforget := hR.steady (isSteady_update place (·.forget req.reference))
      split
      · exact hR.bind hforget fun _ _ => hsearch
      · split
        · exact hR.bind hforget fun _ _ => hR.pure _
        · exact hR.pure _

/-- A router hands a request to one of its handlers, as the selected route makes it. -/
theorem router (hR : IsCongruence R) {r : Router}
    (h : ∀ turn chance s a, r.route? turn chance req = some s → handlers[s.place]? = some a →
      R (x a s.req) (y a s.req)) :
    R (r.serve (handlers.map x) req) (r.serve (handlers.map y) req) := by
  rw [r.serve_eq_choose, r.serve_eq_choose]
  refine hR.bind (hR.steady (r.isSteady_choose req)) fun s hs => ?_
  cases s with
  | none => exact hR.pure _
  | some s =>
    obtain ⟨turn, chance, hroute⟩ := Router.exists_of_returns_choose hs
    simp only [List.getElem?_map]
    cases ha : handlers[s.place]? with
    | none => exact hR.pure _
    | some a => exact h turn chance s a hroute ha

end Serving.IsCongruence

end RequestRouting
