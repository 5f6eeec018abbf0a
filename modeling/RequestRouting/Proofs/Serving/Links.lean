import RequestRouting.Proofs.Routing.Below
import RequestRouting.Proofs.Routing.Forwarding

/-!
# What handlers refer to

A handler is a tree, and leads to others outside of it by the slots it stands for, and by whatever
forwards requests in it. Apart from forwarding, the history of a request is only written to by
values that are attached to it, by variables of routes, and by filters.
-/

namespace RequestRouting

/-- What a handler refers to outside of its tree. -/
inductive Link where
  | slot (place : Nat)
  | capture (c : Capture) (application : Nat)
  | dispatch (d : Dispatch) (table application : Nat)

/-- What forwards requests at a link, if it's no slot, and if its URI is known. -/
def Link.forwarder? (w : World) : Link → Option Forwarder
  | slot _ => none
  | capture c application => some (.capture c application)
  | dispatch d table application =>
    (((w.tables.getD table {}).get? d.dispatcher).bind (·.uri)).map fun uri =>
      .dispatch d uri table application

/-- Whether all handlers, and the dispatch tables, are the same in two worlds. -/
structure World.SameHandlers (a b : World) : Prop where
  slots : a.slots = b.slots
  tables : a.tables = b.tables
  applications : a.applications = b.applications

namespace World.SameHandlers

variable {a b c : World}

theorem refl (w : World) : SameHandlers w w := ⟨rfl, rfl, rfl⟩

theorem trans (h : SameHandlers a b) (h' : SameHandlers b c) : SameHandlers a c :=
  ⟨h.slots.trans h'.slots, h.tables.trans h'.tables, h.applications.trans h'.applications⟩

theorem handler?_eq (h : SameHandlers a b) (target : World.Target) :
    b.handler? target = a.handler? target := by
  cases target with
  | slot place => simp only [World.handler?, h.slots]
  | application name => simp only [World.handler?, h.applications]

end World.SameHandlers

/-- The captures to the pages for errors. -/
def ErrorPages.links (e : ErrorPages) : List Link :=
  e.pages.entries.map fun (_, page) => .capture page e.application

/-- What a middleware refers to. -/
def Middleware.links : Middleware → List Link
  | .errorPages e => e.links
  | _ => []

namespace Handler

mutual

/-- What a handler refers to. -/
def links : Handler → List Link
  | .status _ => []
  | .redirect _ _ => []
  | .resource _ => []
  | .documents _ => []
  | .capture c application => [.capture c application]
  | .dispatch d table application => [.dispatch d table application]
  | .slot place => [.slot place]
  | .chain _ handlers => linksAll handlers
  | .router _ handlers => linksAll handlers
  | .layer middleware next => middleware.links ++ next.links
  termination_by structural h => h

/-- What several handlers refer to. -/
def linksAll : List Handler → List Link
  | [] => []
  | h :: rest => h.links ++ linksAll rest
  termination_by structural l => l

end

end Handler

/-- Whether no executor of a filter writes to the history. -/
def Filter.KeepsHistory (f : Filter) : Prop :=
  ∀ extension executor, f.registry.executor? extension = some executor →
    ∀ tally invocation req req', executor.before tally invocation req = .continue req' →
      Request.KeepsHistory req req'

namespace Handler

mutual

/-- All handlers in the tree of a handler, itself among them. -/
def nodes : Handler → List Handler
  | .chain c handlers => .chain c handlers :: nodesAll handlers
  | .router r handlers => .router r handlers :: nodesAll handlers
  | .layer middleware next => .layer middleware next :: next.nodes
  | leaf => [leaf]
  termination_by structural h => h

/-- All handlers in the trees of several handlers. -/
def nodesAll : List Handler → List Handler
  | [] => []
  | h :: rest => h.nodes ++ nodesAll rest
  termination_by structural l => l

end

theorem self_mem_nodes (h : Handler) : h ∈ h.nodes := by
  cases h <;> simp [nodes]

theorem mem_nodesAll {handlers : List Handler} {node : Handler} :
    node ∈ nodesAll handlers ↔ ∃ h ∈ handlers, node ∈ h.nodes := by
  induction handlers with
  | nil => simp [nodesAll]
  | cons h rest ih => simp [nodesAll, ih]

/-- The attributes that a handler writes to before it hands a request on, if it doesn't forward it:
the variables of its routes, or the values it attaches. -/
def writes : Handler → List String
  | .router r _ => r.entries.flatMap (·.names)
  | .layer (.attach values) _ => values.map (·.1)
  | _ => []

/-- The filter a handler runs requests through. -/
def filter? : Handler → Option Filter
  | .layer (.filter f) _ => some f
  | _ => none

/-- Whether a handler by itself doesn't write to the history, apart from forwarding requests. -/
structure SparesHistory (h : Handler) : Prop where
  writes : Attribute.history ∉ h.writes
  filter : ∀ f, h.filter? = some f → f.KeepsHistory

/-- Whether nothing in a handler writes to the history, apart from what forwards requests. -/
def KeepsHistory (h : Handler) : Prop := ∀ node ∈ h.nodes, node.SparesHistory

end Handler

/-! Requests keep their history on the way down to the handlers that get them. -/

open Request (keepsHistory_set keepsHistory_setAll)

/-- The handler of an entry gets a request with the history it has, unless a variable is the
history. -/
theorem Router.keepsHistory_enter {e : Entry} {req req' : Request}
    (hr : Attribute.history ∉ e.names) (h : enter e req = some req') :
    Request.KeepsHistory req req' := by
  obtain ⟨-, attributes, hreq, hkeep⟩ := exists_of_enter h
  rw [hreq]
  exact hkeep _ (by decide) hr

/-- Stripping a mount point changes the base only. -/
theorem BasePath.get?_apply (b : BasePath) (req : Request) {key : String}
    (hk : key ≠ Attribute.base) :
    (b.apply req).attributes.get? key = req.attributes.get? key := by
  unfold apply
  split
  · rfl
  · cases Text.dropLead? b.base req.uri.path with
    | none => rfl
    | some rest =>
      dsimp only
      split
      · exact Keyed.get?_insert_of_ne _ hk _
      · rfl

theorem BasePath.keepsHistory_apply (b : BasePath) (req : Request) :
    Request.KeepsHistory req (b.apply req) := b.get?_apply req (by decide)

/-- A request is let through with the name of its user. -/
theorem BasicAuth.eq_of_authenticate {a : BasicAuth} {req req' : Request}
    (h : a.authenticate req = .ok req') : ∃ user, req' = req.set Attribute.user user := by
  unfold authenticate at h
  split at h
  · exact ⟨_, (Except.ok.inj h).symm⟩
  · cases h

theorem BasicAuth.keepsHistory_authenticate {a : BasicAuth} {req req' : Request}
    (h : a.authenticate req = .ok req') : Request.KeepsHistory req req' := by
  have hn : Attribute.history ≠ Attribute.user := by decide
  obtain ⟨user, rfl⟩ := eq_of_authenticate h
  exact keepsHistory_set req hn user

theorem Request.keepsHistory_enterApplication (req : Request) :
    Request.KeepsHistory req req.enterApplication :=
  keepsHistory_set req (by decide) _

end RequestRouting
