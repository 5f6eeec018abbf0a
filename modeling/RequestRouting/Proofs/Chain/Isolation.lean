import RequestRouting.Routing.Chain

/-!
# Chains on their own

A chain on a stage of its own: its handlers have a state that what the chain remembers is no part of,
so they don't call back into it, and apart from that they're arbitrary. They may change their answers
at any time, look at the clock, take time to answer, or not answer at all. Every invocation of a
handler is written down, so what a chain does can be compared as a whole.

What is remembered, and how requests are served with it, is a parameter. The chain itself is one way
to do so.
-/

namespace RequestRouting.Chain

/-- A handler with a state of its own. Given a request, the time and the state, it yields its
response, the time it took, and the state afterwards. -/
abbrev Child (σ : Type) := Request → Time → σ → Option (Response × Time × σ)

/-- The answer of the handler at an index. -/
structure Invocation where
  index : Nat
  res : Response

/-- Where a chain is on its own: the clock, what it remembers, the state of its handlers, and the
invocations of handlers since the last request came in. -/
structure Stage (μ σ : Type) where
  now : Time
  memory : μ
  state : σ
  invoked : List Invocation := []

/-- What is done on a stage. -/
abbrev Play (μ σ : Type) := StateT (Stage μ σ) Option

variable {μ σ α β : Type}

namespace Play

@[simp] theorem bind_apply (x : Play μ σ α) (f : α → Play μ σ β) (s : Stage μ σ) :
    (x >>= f) s = (x s).bind fun p => f p.1 p.2 := rfl

@[simp] theorem pure_apply (a : α) (s : Stage μ σ) : (pure a : Play μ σ α) s = some (a, s) := rfl

@[simp] theorem get_apply (s : Stage μ σ) : (get : Play μ σ (Stage μ σ)) s = some (s, s) := rfl

@[simp] theorem modify_apply (f : Stage μ σ → Stage μ σ) (s : Stage μ σ) :
    (modify f : Play μ σ PUnit) s = some (⟨⟩, f s) := rfl

/-- Changes what is remembered. -/
def update (change : μ → μ) : Play μ σ Unit := modify fun s => { s with memory := change s.memory }

@[simp] theorem update_apply (change : μ → μ) (s : Stage μ σ) :
    update change s = some (⟨⟩, { s with memory := change s.memory }) := rfl

end Play

/-- The stage after a handler answered. -/
def Stage.answered (s : Stage μ σ) (index : Nat) (res : Response) (took : Time) (state : σ) :
    Stage μ σ :=
  { s with now := s.now + took, state, invoked := s.invoked ++ [⟨index, res⟩] }

/-- Invokes the handler at an index, writing down its answer. -/
def Child.invoke (child : Child σ) (index : Nat) (req : Request) : Play μ σ Response := fun s =>
  (child req s.now s.state).map fun (res, took, state) => (res, s.answered index res took state)

/-- The handlers from an index on, as a chain invokes them. -/
def cast : Nat → List (Child σ) → List (Request → Play μ σ Response)
  | _, [] => []
  | index, child :: rest => child.invoke index :: cast (index + 1) rest

theorem getElem?_cast (first index : Nat) (children : List (Child σ)) :
    (cast first children : List (Request → Play μ σ Response))[index]? =
      (children[index]?).map fun child => child.invoke (first + index) := by
  induction children generalizing first index with
  | nil => rfl
  | cons child rest ih =>
    cases index with
    | zero => rfl
    | succ index =>
      simp only [cast, List.getElem?_cons_succ, ih]
      rw [Nat.add_right_comm, Nat.add_assoc]

/-- A request that was served: the invocations it took, in order, and the response. -/
structure Served where
  req : Request
  invoked : List Invocation
  res : Response

/-- What happens to a chain. -/
inductive Turn where
  | request (req : Request)
  /-- Time goes by. -/
  | wait (span : Time)
  /-- The winner for a reference is forgotten. -/
  | invalidate (reference : String)
  /-- All winners are forgotten. -/
  | clear

/-- A way to remember winners. -/
structure Mechanism (μ σ : Type) where
  serve : List (Request → Play μ σ Response) → Request → Play μ σ Response
  invalidate : String → μ → μ
  clear : μ → μ

namespace Mechanism

/-- Serves a request, and yields all that it took. -/
def attend (m : Mechanism μ σ) (children : List (Child σ)) (req : Request) : Play μ σ Served := do
  modify fun s => { s with invoked := [] }
  let res ← m.serve (cast 0 children) req
  return { req, invoked := (← get).invoked, res }

/-- What happens in a turn, yielding the request that was served in it. -/
def perform (m : Mechanism μ σ) (children : List (Child σ)) : Turn → Play μ σ (Option Served)
  | .request req => do return some (← m.attend children req)
  | .wait span => do
    modify fun s => { s with now := s.now + span }
    return none
  | .invalidate reference => do
    Play.update (m.invalidate reference)
    return none
  | .clear => do
    Play.update m.clear
    return none

/-- What happens in one turn after another, yielding the requests that were served. -/
def play (m : Mechanism μ σ) (children : List (Child σ)) : List Turn → Play μ σ (List Served)
  | [] => return []
  | turn :: rest => do
    let served ← m.perform children turn
    return served.toList ++ (← m.play children rest)

end Mechanism

/-- How a chain gains access to the clock and to what it remembers. -/
def stageAccess : Access (Play Cache σ) where
  now := return (← get).now
  read := return (← get).memory
  update := Play.update

@[simp] theorem stageAccess_now (s : Stage Cache σ) : stageAccess.now s = some (s.now, s) := rfl

@[simp] theorem stageAccess_read (s : Stage Cache σ) :
    stageAccess.read s = some (s.memory, s) := rfl

@[simp] theorem stageAccess_update (change : Cache → Cache) (s : Stage Cache σ) :
    stageAccess.update change s = some (⟨⟩, { s with memory := change s.memory }) := rfl

/-- The remembered winner, and what is remembered afterwards. -/
theorem winner?_stage (ttl : Duration) (reference : String) (s : Stage Cache σ) :
    winner? stageAccess ttl reference s =
      some (if ttl = 0 then (none, s)
        else match s.memory.winner? ttl s.now reference with
          | some index => (some index, s)
          | none => (none, { s with memory := s.memory.forget reference })) := by
  unfold winner?
  split
  · rfl
  · simp only [Play.bind_apply, stageAccess_read, stageAccess_now, Option.bind_some]
    split <;> simp_all

/-- The way a chain remembers winners. -/
def remembering (ttl : Duration) : Mechanism Cache σ where
  serve := serve stageAccess ttl
  invalidate reference := (·.forget reference)
  clear := (·.clear)

end RequestRouting.Chain
