import RequestRouting.Serving.World

/-!
# Serving requests

Handlers are run by recursion on their tree. Jumps out of the tree, which captures make, are a
parameter of running a handler. A jump leads to a handler whose own jumps have one less left to
spend, so serving a request takes as much fuel as jumps are nested.
-/

namespace RequestRouting

/-- How a jump to a target is made. -/
abbrev Jump := World.Target → Request → Serving Response

namespace Serving

/-- Finds a document of a library. -/
def find (library : Library) (name : String) : Serving (Option Document) := do
  let w ← get
  let (document, cache) :=
    library.source.find w.files w.now (w.lookups.getD library.place {}) name
  set { w with lookups := w.lookups.setIfInBounds library.place cache }
  return document

/-- Finds a document in the first of several libraries that has it. -/
def findFirst : List Library → String → Serving (Option Document)
  | [], _ => return none
  | library :: rest, name => do
    match ← find library name with
    | some document => return some document
    | none => findFirst rest name

/-- Answers a request by a resource. -/
def call (resource : Resource) (req : Request) : Serving Response := do
  let w ← get
  set { w with calls := w.calls.modify resource.place (· + 1) }
  return resource.answer (w.calls.getD resource.place 0) req

/-- The tally of an executor. -/
def tally (executor : Executor) : Serving Executor.Tally :=
  return (← get).tallies.getD executor.place {}

/-- Executes a document. -/
def execute (executor : Executor) (invocation : Invocation) (req : Request) : Serving Response := do
  let tally ← tally executor
  modify fun w => { w with tallies := w.tallies.modify executor.place fun t =>
    { t with handled := t.handled + 1 } }
  return executor.handle tally invocation req

/-- Executes a filter before the next handler. -/
def before (executor : Executor) (invocation : Invocation) (req : Request) : Serving Flow := do
  match executor.before (← tally executor) invocation req with
  | .continue req => return .continue req
  | .stop res =>
    modify fun w => { w with tallies := w.tallies.modify executor.place fun t =>
      { t with stopped := t.stopped + 1 } }
    return .stop res

/-- Access to what a chain remembers. -/
def chainAccess (place : Nat) : Chain.Access Serving where
  now := return (← get).now
  read := return (← get).chains.getD place {}
  update change := modify fun w => { w with chains := w.chains.modify place change }

end Serving

namespace Documents

/-- Finds the document for a path. -/
def find (d : Documents) (path : String) : Serving (Option Document) := do
  match ← Serving.find d.source path with
  | some document => return some document
  | none =>
    let name := Text.trim (· = '/') path
    if d.passes name then Serving.findFirst d.libraries name else return none

/-- Answers a request by a document. -/
def serve (d : Documents) (req : Request) : Serving Response := do
  match ← d.find req.uri.path with
  | none => return .ofStatus .notFound
  | some document =>
    match d.redirection? req, d.registry.executor? document.extension with
    | some res, _ => return res
    | none, none => return .ofStatus .internalServerError
    | none, some executor =>
      if d.isFresh req document then return .ofStatus .notModified
      let res ← Serving.execute executor (d.invocation document) req
      return d.stamp document.modified res

end Documents

/-- Captures a request. Another application that doesn't exist can't be captured into. -/
def Capture.serve (c : Capture) (application : Nat) (jump : Jump) (req : Request) :
    Serving Response := do
  let target := match c.application with
    | some name => .application name
    | none => .slot application
  if c.application.isSome && ((← get).handler? target).isNone then return .ofStatus .notFound
  match c.forward? req with
  | some req => jump target req
  | none => return .ofStatus .internalServerError

/-- Captures a request into a dispatcher, if its URI is known. -/
def Dispatch.serve (d : Dispatch) (table application : Nat) (jump : Jump) (req : Request) :
    Serving Response := do
  match (((← get).tables.getD table {}).get? d.dispatcher).bind (·.uri) with
  | none => return .ofStatus .notFound
  | some uri =>
    match d.forward? uri req with
    | some req => jump (.slot application) req
    | none => return .ofStatus .internalServerError

/-- Runs a filter around the next handler. -/
def Filter.serve (f : Filter) (next : Request → Serving Response) (req : Request) :
    Serving Response := do
  match ← Serving.findFirst f.libraries f.document with
  | none => return .ofStatus .internalServerError
  | some document =>
    match f.registry.executor? document.extension with
    | none => return .ofStatus .internalServerError
    | some executor =>
      match ← Serving.before executor (f.invocation document) req with
      | .stop res => return res
      | .continue req => return executor.after (f.invocation document) (← next req)

/-- Generates the artifact a request asks for, and goes on with the next handler. -/
def Assets.serve (a : Assets) (place : Nat) (next : Request → Serving Response) (req : Request) :
    Serving Response := do
  modify fun w =>
    let (files, checks) := a.refresh w.files w.now (w.checks.getD place {}) req.uri.path
    { w with files, checks := w.checks.setIfInBounds place checks }
  next req

/-- Replaces responses that have an error page by that page, which keeps the status unless it fails
itself. Error pages don't get error pages of their own. -/
def ErrorPages.serve (e : ErrorPages) (jump : Jump) (next : Request → Serving Response)
    (req : Request) : Serving Response := do
  let res ← next req
  if req.attributes.contains Attribute.error then return res
  match e.pages.get? res.status.code with
  | none => return res
  | some capture =>
    let page ← capture.serve e.application jump
      (req.set Attribute.error (toString res.status.code))
    return if page.status.isSuccess then { page with status := res.status } else page

/-- The mount point of an application is the base of the requests it gets. -/
def Request.enterApplication (req : Request) : Request :=
  req.set Attribute.root ((req.attributes.get? Attribute.base).getD "")

/-- Runs a middleware around the next handler. -/
def Middleware.serve (jump : Jump) (next : Request → Serving Response) (req : Request) :
    Middleware → Serving Response
  | basePath b => next (b.apply req)
  | normalizePath n =>
    match n.answer? req with
    | some res => return res
    | none => next req
  | compress c => return c.apply req (← next req)
  | staticFiles s => do
    let w ← get
    match s.answer? w.files w.now req with
    | some res => return res
    | none => next req
  | basicAuth a =>
    match a.authenticate req with
    | .ok req => next req
    | .error res => return res
  | cacheControl c => do
    let res ← next req
    return c.apply (← get).now res
  | cors c => return c.apply (← next req)
  | attach values => next (req.setAll values)
  | filter f => f.serve next req
  | assets a place => a.serve place next req
  | errorPages e => e.serve jump next req
  | applicationRoot => next req.enterApplication

/-- Routes a request to one of several handlers. -/
def Router.serve (r : Router) (handlers : List (Request → Serving Response)) (req : Request) :
    Serving Response := do
  let w ← get
  let (chance, drawn) := w.draw
  if r.mode = .random then set drawn
  match r.route? (w.turns.getD r.place 0) chance req with
  | none => return .ofStatus .notFound
  | some selection =>
    if selection.isTurn then
      modify fun w => { w with turns := w.turns.modify r.place (· + 1) }
    match handlers[selection.place]? with
    | some handler => handler selection.req
    | none => return .ofStatus .notFound

namespace Handler

mutual

/-- Runs a handler, given how jumps are made. -/
def run (jump : Jump) : Handler → Request → Serving Response
  | status s, _ => return .ofStatus s
  | redirect uri s, req => return .redirect s (Uri.parse (uri.expand req)).text
  | resource r, req => Serving.call r req
  | documents d, req => d.serve req
  | capture c application, req => c.serve application jump req
  | dispatch d table application, req => d.serve table application jump req
  | slot place, req => jump (.slot place) req
  | chain c handlers, req => Chain.serve (Serving.chainAccess c.place) c.ttl (runAll jump handlers) req
  | router r handlers, req => r.serve (runAll jump handlers) req
  | layer middleware next, req => middleware.serve jump (fun req => next.run jump req) req
  termination_by structural h => h

/-- The ways several handlers are run. -/
def runAll (jump : Jump) : List Handler → List (Request → Serving Response)
  | [] => []
  | h :: rest => (fun req => h.run jump req) :: runAll jump rest
  termination_by structural l => l

end

end Handler

namespace World

/-- Makes a jump, spending fuel for it. A target without handler answers with 404. -/
def jump : Nat → Jump
  | 0, _, _ => failure
  | fuel + 1, target, req => do
    match (← get).handler? target with
    | some handler => handler.run (jump fuel) req
    | none => return .ofStatus .notFound

/-- Answers a request by a handler. -/
def answer (fuel : Nat) (handler : Handler) (req : Request) : Serving Response :=
  handler.run (jump fuel) req

end World

end RequestRouting
