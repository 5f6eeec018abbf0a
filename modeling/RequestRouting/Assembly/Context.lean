import RequestRouting.Config.Basic
import RequestRouting.Serving.World

/-!
# Contexts

The context of an application is what its nodes share while they're resolved into handlers: its
settings and collaborators, the manual and the template resource, the dispatch table, and the URIs
to hide. It's a state, together with the world the handlers are going to be run in, and errors leave
it as it was when they were raised.
-/

namespace RequestRouting

/-- A node there is at most one of, with its first configuration and the slot that stands for it. -/
structure Singleton (σ : Type) where
  config : σ
  slot : Nat

/-- What resolving a node yields. -/
inductive Resolved where
  | handler (handler : Handler)
  | hidden
  deriving Inhabited

/-- The handler of a node, which never handles anything if the node is hidden. -/
def Resolved.toHandler : Resolved → Handler
  | handler h => h
  | hidden => .notFound

/-- A node built beforehand. -/
inductive Prebuilt where
  /-- A node that starts out with a handler, or hidden, and resolves other nodes in order, at a given
  URI or its own one, taking over what the last of them yields. -/
  | family (handler : Option Handler) (steps : List (String × Option String))
  /-- A node whose handler gives a response that depends on the name of the application and the URI
  it's created at. -/
  | closure (response : String → String → Response)

/-- The context of an application. -/
structure Context where
  name : String
  root : String
  settings : Settings := {}
  registry : Registry := {}
  libraryPaths : List String := []
  libraries : List Library := []
  /-- The time span for chains that have none of their own, if it differs from the validity of the
  settings. -/
  chainTtl : Option Duration := none
  manual : Option (Singleton ManualNode) := none
  templates : Option (Singleton TemplatesNode) := none
  dispatch : DispatchTable := {}
  /-- The URIs to hide. -/
  hidden : List String := []
  /-- The slot of the application, which captures lead into. -/
  application : Nat := 0
  /-- The place where the dispatch table is published. -/
  table : Nat := 0
  /-- Nodes built beforehand, by name. -/
  prebuilt : List (String × Prebuilt) := []
  /-- The prebuilt nodes being resolved, each with its URI. -/
  resolving : List (String × String) := []

namespace Context

/-- A path relative to the root of the application. -/
def path (c : Context) (path : String) : String := Path.join c.root path

/-- The media types of the settings. -/
def types (c : Context) : MediaTypes := c.settings.types

/-- How long the outcome of looking for a file may be reused. -/
def validity (c : Context) : Duration := c.settings.validity

/-- How long chains that have no time span of their own remember winners. -/
def ttl (c : Context) : Duration := c.chainTtl.getD c.validity

/-- The compression of the settings. -/
def compress (c : Context) : Compress where
  threshold := c.settings.compression.sizeThreshold
  exclude := c.settings.compression.exclude

/-- The document source of a library directory. -/
def librarySource (settings : Settings) (root : String) : DocumentSource where
  root
  defaultName := settings.code.defaultDocumentName
  defaultExtension := settings.code.defaultExtension
  validity := settings.validity

/-- Adds the document sources of directories with libraries. -/
def addLibraries (settings : Settings) : List String → World → List Library × World
  | [], w => ([], w)
  | path :: rest, w =>
    let (place, w) := w.addLookups
    let (libraries, w) := addLibraries settings rest w
    ({ source := librarySource settings path, place } :: libraries, w)

/-- Creates the context of an application. -/
def create (name root : String) (settings : Settings) (registry : Registry)
    (dispatchers : Dispatchers) (w : World) : Context × World :=
  let libraryPaths := settings.libraries root
  let (libraries, w) := addLibraries settings libraryPaths w
  let (application, w) := w.addSlot
  let (table, w) := w.addTable
  ({ name, root, settings, registry, libraryPaths, libraries, application, table
     dispatch := .ofDispatchers dispatchers }, w)

end Context

/-- What changes while an application is assembled. -/
structure Assembly.State where
  context : Context
  world : World

/-- What is done while an application is assembled. -/
abbrev Assembly := ExceptT Error (StateM Assembly.State)

namespace Assembly

/-- The context as it is. -/
def context : Assembly Context := return (← get).context

/-- Changes the context. -/
def modifyContext (change : Context → Context) : Assembly Unit :=
  modify fun s => { s with context := change s.context }

/-- Adds something to the world, yielding its place. -/
def add (f : World → Nat × World) : Assembly Nat := do
  let s ← get
  let (place, world) := f s.world
  set { s with world }
  return place

/-- Binds a slot to a handler. -/
def bind (place : Nat) (handler : Handler) : Assembly Unit :=
  modify fun s => { s with world := s.world.updateSlot place (Slot.bind handler) }

/-- Runs an action with a time span for chains, which is reset afterwards even if it fails. -/
def withTtl {α : Type} (ttl : Option Duration) (action : Assembly α) : Assembly α :=
  match ttl with
  | none => action
  | some ttl => fun s =>
    let (result, s') := action { s with context.chainTtl := some ttl }
    (result, { s' with context.chainTtl := s.context.chainTtl })

/-- Runs an action, errors of which carry the URI of a route unless they carry one already. -/
def located {α : Type} (uri : String) (action : Assembly α) : Assembly α := fun s =>
  match action s with
  | (.error (.route uri source), s) => (.error (.route uri source), s)
  | (.error error, s) => (.error (.route uri error), s)
  | (.ok x, s) => (.ok x, s)

/-- Whether two configured paths are the same. -/
def samePath (a b : Option String) : Bool := a.map Path.components = b.map Path.components

/-- Whether two lists of configured paths are the same. -/
def samePaths (a b : Option (List String)) : Bool :=
  a.map (·.map Path.components) = b.map (·.map Path.components)

/-- Whether two configurations of the manual resource are the same. -/
def sameManual (a b : ManualNode) : Bool :=
  samePath a.root b.root && { a with root := none } = { b with root := none }

/-- Whether two configurations of the template resource are the same. -/
def sameTemplates (a b : TemplatesNode) : Bool :=
  samePath a.root b.root && samePaths a.includeRoots b.includeRoots &&
    { a with root := none, includeRoots := none } = { b with root := none, includeRoots := none }

/-- Registers the manual resource, yielding the slot that stands for it. A bare configuration stands
for the one registered before. -/
def registerManual (node : ManualNode) : Assembly Nat := do
  match (← context).manual with
  | none =>
    let slot ← add (·.addSlot)
    modifyContext fun c => { c with manual := some { config := node, slot } }
    return slot
  | some existing =>
    if node = {} || sameManual node existing.config then return existing.slot
    else throw (.singleton "manual")

/-- Registers the template resource, yielding the slot that stands for it. A bare configuration
stands for the one registered before. -/
def registerTemplates (node : TemplatesNode) : Assembly Nat := do
  match (← context).templates with
  | none =>
    let slot ← add (·.addSlot)
    modifyContext fun c => { c with templates := some { config := node, slot } }
    return slot
  | some existing =>
    if node = {} || sameTemplates node existing.config then return existing.slot
    else throw (.singleton "templates")

/-- Hides a URI once the application is built. -/
def hide (uri : String) : Assembly Unit :=
  modifyContext fun c => { c with hidden := c.hidden ++ [uri] }

end Assembly

end RequestRouting
