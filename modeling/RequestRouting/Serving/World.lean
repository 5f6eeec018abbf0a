import RequestRouting.Dispatch.Table
import RequestRouting.Routing.Slot
import RequestRouting.Serving.Handler

/-!
# The world requests are served in

Everything that changes while requests are served is kept in the world: files, the clock, and the
values that handlers refer to by their place. Running out of fuel yields no world at all.
-/

namespace RequestRouting

/-- All that changes while requests are served. -/
structure World where
  files : FileTree := {}
  now : Time := 0
  /-- What random choices are drawn from. -/
  chance : Nat := 0
  /-- The winners remembered by chains. -/
  chains : Array Chain.Cache := #[]
  /-- The numbers of selections made in rotation by routers. -/
  turns : Array Nat := #[]
  /-- The lookups of document sources. -/
  lookups : Array DocumentSource.Cache := #[]
  /-- The times artifacts were checked at. -/
  checks : Array Assets.Checks := #[]
  slots : Array (Slot Handler) := #[]
  /-- The dispatch tables of applications, empty until they're built. -/
  tables : Array DispatchTable := #[]
  /-- The numbers of calls of resources. -/
  calls : Array Nat := #[]
  tallies : Array Executor.Tally := #[]
  /-- The applications by name. -/
  applications : Keyed String Handler := {}

namespace World

/-- Adds a chain that remembers nothing, yielding its place. -/
def addChain (w : World) : Nat × World :=
  (w.chains.size, { w with chains := w.chains.push {} })

/-- Adds a router, yielding its place. -/
def addTurn (w : World) : Nat × World := (w.turns.size, { w with turns := w.turns.push 0 })

/-- Adds a document source, yielding its place. -/
def addLookups (w : World) : Nat × World :=
  (w.lookups.size, { w with lookups := w.lookups.push {} })

/-- Adds an asset node, yielding its place. -/
def addChecks (w : World) : Nat × World := (w.checks.size, { w with checks := w.checks.push {} })

/-- Adds a slot that isn't bound, yielding its place. -/
def addSlot (w : World) : Nat × World := (w.slots.size, { w with slots := w.slots.push .unbound })

/-- Adds a dispatch table, yielding its place. -/
def addTable (w : World) : Nat × World := (w.tables.size, { w with tables := w.tables.push {} })

/-- Adds a resource, yielding its place. -/
def addCalls (w : World) : Nat × World := (w.calls.size, { w with calls := w.calls.push 0 })

/-- Adds an executor, yielding its place. -/
def addTally (w : World) : Nat × World := (w.tallies.size, { w with tallies := w.tallies.push {} })

/-- Changes a slot. -/
def updateSlot (w : World) (place : Nat) (change : Slot Handler → Slot Handler) : World :=
  { w with slots := w.slots.modify place change }

/-- Draws a random number. -/
def draw (w : World) : Nat × World :=
  let chance := (w.chance * 6364136223846793005 + 1442695040888963407) % Nat.pow 2 64
  (chance / Nat.pow 2 33, { w with chance })

/-- Lets time pass. -/
def sleep (w : World) (span : Duration) : World :=
  { w with now := w.now + span * Time.millisecond }

/-- What handlers jump to: the handler in a slot, or the root of an application. -/
inductive Target where
  | slot (place : Nat)
  | application (name : String)
  deriving DecidableEq, Repr

/-- The handler at a target. -/
def handler? (w : World) : Target → Option Handler
  | .slot place => (w.slots[place]?).bind Slot.get?
  | .application name => w.applications.get? name

end World

/-- What is done while a request is served. -/
abbrev Serving := StateT World Option

end RequestRouting
