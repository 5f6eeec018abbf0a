import RequestRouting.Files.Tree
import RequestRouting.Http.Message

/-!
# Chains

A chain offers a request to its handlers in order until one of them answers with anything else than
404. The winner is remembered for the reference of the request, so the next request for it is
offered to the same handler first. What is remembered expires, and winners that stop handling or
fail are forgotten.

Handlers run in any monad `m`, which also gives access to what is remembered.
-/

namespace RequestRouting

/-- How long winners are remembered, and the place they're remembered at. -/
structure Chain where
  ttl : Duration
  place : Nat
  deriving DecidableEq, Repr

/-- Remembered winners, each with the time it won, and the number of winners remembered so far. -/
structure Chain.Cache where
  winners : Keyed String (Nat × Time) := {}
  inserts : Nat := 0
  deriving Inhabited

namespace Chain

/-- The number of remembered winners after which those that expired are forgotten. -/
def sweepInterval : Nat := 256

namespace Cache

/-- The winner for a reference, unless it expired. -/
def winner? (c : Cache) (ttl : Duration) (now : Time) (reference : String) : Option Nat :=
  match c.winners.get? reference with
  | some (index, since) => if Time.isWithin since ttl now then some index else none
  | none => none

/-- Forgets the winner for a reference. -/
def forget (c : Cache) (reference : String) : Cache :=
  { c with winners := c.winners.erase reference }

/-- Forgets all winners. -/
def clear (c : Cache) : Cache := { c with winners := {} }

/-- Forgets all winners that expired. -/
def sweep (c : Cache) (ttl : Duration) (now : Time) : Cache :=
  { c with winners := ⟨c.winners.entries.filter fun (_, _, since) => Time.isWithin since ttl now⟩ }

/-- Remembers the winner for a reference. -/
def remember (c : Cache) (ttl : Duration) (now : Time) (reference : String) (index : Nat) : Cache :=
  let c := { winners := c.winners.insert reference (index, now), inserts := c.inserts + 1 }
  if c.inserts % sweepInterval = 0 then c.sweep ttl now else c

end Cache

/-- How handlers gain access to the clock and to what is remembered. -/
structure Access (m : Type → Type) where
  now : m Time
  read : m Cache
  update : (Cache → Cache) → m Unit

variable {m : Type → Type} [Monad m]

/-- The remembered winner for a reference. One that expired is forgotten. -/
def winner? (access : Access m) (ttl : Duration) (reference : String) : m (Option Nat) := do
  if ttl = 0 then return none
  match (← access.read).winner? ttl (← access.now) reference with
  | some index => return some index
  | none =>
    access.update (·.forget reference)
    return none

/-- Offers a request to handlers in order, leaving out the one that was tried already. The index is
that of the first handler, and `last` the response of the one before it. -/
def search (access : Access m) (ttl : Duration) (reference : String) (tried : Option Nat)
    (req : Request) : Nat → Option Response → List (Request → m Response) → m Response
  | _, last, [] => return last.getD (.ofStatus .notFound)
  | index, last, handler :: rest => do
    if tried = some index then search access ttl reference tried req (index + 1) last rest
    else
      let res ← handler req
      if res.status = .notFound then
        search access ttl reference tried req (index + 1) (some res) rest
      else
        if ttl ≠ 0 && !res.status.isServerError then
          let now ← access.now
          access.update (·.remember ttl now reference index)
        return res

/-- Offers a request to the handlers, the remembered winner first. -/
def serve (access : Access m) (ttl : Duration) (handlers : List (Request → m Response))
    (req : Request) : m Response := do
  let reference := req.reference
  let winner ← winner? access ttl reference
  match winner.bind (handlers[·]?) with
  | none => search access ttl reference winner req 0 none handlers
  | some handler =>
    let res ← handler req
    if res.status = .notFound then
      access.update (·.forget reference)
      search access ttl reference winner req 0 none handlers
    else
      if res.status.isServerError then access.update (·.forget reference)
      return res

end Chain

end RequestRouting
