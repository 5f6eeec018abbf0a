import RequestRouting.Assembly.Finish
import RequestRouting.Serving.Run

/-!
# Components

A component holds virtual hosts that applications are attached to. On a virtual host the longest
mount point a path is below of is the one that counts, and the mount point without its slash is
redirected to it. Applications are only attached once they're assembled without error, so a failing
one leaves no trace.
-/

namespace RequestRouting

/-- A handler attached at a mount point, which ends with a slash and is stripped from paths. -/
structure Mount where
  point : String
  handler : Handler

/-- A virtual host, its longest mount points first. -/
structure VirtualHost where
  mounts : List Mount := []

/-- What a virtual host makes of a request. -/
inductive VirtualHost.Decision where
  | handle (handler : Handler)
  | redirect (res : Response)
  | unknown

namespace Mount

/-- Attaches a handler at a mount point. -/
def ofPath (path : String) (handler : Handler) : Except MatcherError Mount := do
  let point := clean path
  let point := if Text.endsWith "/" point then point else point ++ "/"
  return { point, handler := .layer (.basePath (← BasePath.ofPath point)) handler }

/-- The length of the mount point. -/
def length (m : Mount) : Nat := m.point.utf8ByteSize

/-- The mount point without slash. -/
def bare (m : Mount) : String := Text.trimTail (· = '/') m.point

end Mount

namespace VirtualHost

/-- Adds a mount behind all others that are at least as long. -/
def add (h : VirtualHost) (mount : Mount) : VirtualHost where
  mounts := h.mounts.takeWhile (mount.length ≤ ·.length) ++
    mount :: h.mounts.dropWhile (mount.length ≤ ·.length)

/-- Attaches a handler at a mount point. -/
def attach (h : VirtualHost) (path : String) (handler : Handler) :
    Except MatcherError VirtualHost :=
  (Mount.ofPath path handler).map h.add

/-- What the first mount that has to do with a request makes of it. -/
def decide (req : Request) : List Mount → Decision
  | [] => .unknown
  | mount :: rest =>
    if Text.startsWith mount.point req.uri.path then .handle mount.handler
    else if !mount.bare.isEmpty && req.uri.path = mount.bare then
      .redirect (Response.redirect .movedPermanently
        (Uri.ofParts mount.point req.uri.query).text)
    else decide req rest

/-- Answers a request. -/
def serve (h : VirtualHost) (fuel : Nat) (req : Request) : Serving Response :=
  match decide req h.mounts with
  | .handle handler => World.answer fuel handler req
  | .redirect res => return res
  | .unknown => return .ofStatus .notFound

end VirtualHost

/-- An assembled application. -/
structure Application where
  name : String
  handler : Handler
  dispatchers : Dispatchers := {}
  /-- Values for dispatchers. -/
  globals : Keyed String Json := {}
  /-- The URIs to request after the start. -/
  preheat : List String := []

namespace Application

/-- Answers a request. -/
def serve (a : Application) (fuel : Nat) (req : Request) : Serving Response :=
  World.answer fuel a.handler req

/-- The internal request for a URI. -/
def preheatRequest (uri : String) : Request :=
  let req : Request := { uri := Uri.parse uri }
  req.set Attribute.history req.uri.path

/-- Requests all URIs, yielding the statuses of the responses. -/
def preheatAll (a : Application) (fuel : Nat) : Serving (List Status) :=
  a.preheat.mapM fun uri => return (← a.serve fuel (preheatRequest uri)).status

end Application

namespace Assembly

/-- The error pages of a configuration. The URIs of those with a mark are hidden. -/
def errorPages : List (Nat × String) → Assembly (Keyed Nat Capture)
  | [] => return {}
  | (code, uri) :: rest => do
    if (Status.ofCode? code).isNone then throw (.status code)
    let marked := Text.dropTail? "!" uri
    if let some uri := marked then hide uri
    return (← errorPages rest).insert code (.ofUri (marked.getD uri))

/-- Hides routes by their URIs. -/
def hideRoutes (router : Router) (uris : List String) : Assembly Router :=
  uris.foldlM (fun router uri => do
    return router.hide (← located uri (routeOf uri))) router

/-- Mounts the manual resource, if it's used, where no request from outside reaches it. -/
def mountManual (router : Router × List Handler) :
    Option (String × Nat) → Assembly (Router × List Handler)
  | none => return router
  | some (internal, slot) => do
    let route ← routeOf (internal ++ "*")
    let (router, handlers) ← attachResolved route router (.handler (.slot slot))
    return (router.hide route, handlers)

/-- The handler of an application, with its error pages. -/
def rootHandler (application : Nat) (router : Handler) (pages : Keyed Nat Capture) : Handler :=
  if pages.isEmpty then router else .layer (.errorPages { pages, application }) router

/-- Assembles an application from its configuration. -/
def application (config : Config) : Assembly Application := do
  let (router, handlers) ←
    resolveOrdered (resolvePrebuilt (nestingBound (← context).prebuilt)) config.routes "/" .best none
  let (router, handlers) ← mountManual (router, handlers) (← finish)
  let pages ← errorPages config.errors.entries
  let c ← context
  let router ← hideRoutes router c.hidden
  let root : Handler := .router router handlers
  modify fun s => { s with world := s.world.updateSlot c.application (Slot.bindWeak root) }
  return {
    name := c.name
    handler := .layer .applicationRoot (rootHandler c.application root pages)
    dispatchers := config.dispatchers
    globals := c.dispatch.globals
    preheat := config.preheat }

end Assembly

/-- A component: its virtual hosts, and its applications. -/
structure Component where
  hosts : Keyed String VirtualHost
  applications : Keyed String Application := {}

namespace Component

/-- The virtual host of a name that's used by default. -/
def defaultHost : String := "default"

/-- The virtual host for requests that don't come from outside. -/
def internalHost : String := "internal"

/-- The component with the virtual hosts there always are. -/
def empty : Component where
  hosts := .ofList [(defaultHost, {}), (internalHost, {})]

/-- Adds a virtual host, unless there is one with the given name. -/
def addHost (c : Component) (name : String) : Component :=
  { c with hosts := c.hosts.insertIfAbsent name {} }

/-- The virtual host with the given name. -/
def host? (c : Component) (name : String) : Option VirtualHost := c.hosts.get? name

/-- The application with the given name. -/
def application (c : Component) (name : String) : Except Error Application :=
  match c.applications.get? name with
  | some application => .ok application
  | none => .error (.unknownApplication name)

/-- The virtual hosts an application is attached to, with its mount points. -/
def mountPoints (name : String) (config : Config) : List (String × String) :=
  if config.hosts.isEmpty then [(internalHost, "/" ++ name ++ "/")] else config.hosts.entries

/-- Attaches a handler to a virtual host. -/
def attach (c : Component) (host path : String) (handler : Handler) : Except Error Component :=
  match c.host? host with
  | none => .error (.unknownHost host)
  | some h =>
    match h.attach path handler with
    | .ok h => .ok { c with hosts := c.hosts.insert host h }
    | .error error => .error (.handler error)

/-- The mounts of an application, unless a virtual host is unknown or a mount point is malformed. -/
def mounts (handler : Handler) (points : List (String × String)) :
    Except Error (List (String × Mount)) :=
  points.mapM fun (host, path) =>
    return (host, ← (Mount.ofPath path handler).mapError Error.handler)

/-- Adds a mount to a virtual host. -/
def addMount (c : Component) (host : String) (mount : Mount) : Component :=
  match c.host? host with
  | some h => { c with hosts := c.hosts.insert host (h.add mount) }
  | none => c

/-- Registers an application with its mounts. -/
def register (c : Component) (application : Application) (mounts : List (String × Mount)) :
    Component :=
  let c := mounts.foldl (fun c (host, mount) => c.addMount host mount) c
  { c with applications := c.applications.insert application.name application }

/-- Assembles an application in a directory, and attaches it to its virtual hosts. -/
def assemble (c : Component) (w : World) (name root : String) (config : Config)
    (registry : Registry) : Except Error (Component × World) := do
  let (context, world) := Context.create name root config.settings registry config.dispatchers w
  let (result, state) := Assembly.application config { context, world }
  let application ← result
  let points := mountPoints name config
  if let some (host, _) := points.find? fun (host, _) => (c.host? host).isNone then
    .error (.unknownHost host)
  let mounts ← mounts application.handler points
  return (c.register application mounts, { state.world with
    applications := state.world.applications.insert name application.handler })

/-- Answers a request to a virtual host. -/
def serve (c : Component) (fuel : Nat) (host : String) (req : Request) : Serving Response :=
  match c.host? host with
  | some host => host.serve fuel req
  | none => return .ofStatus .notFound

end Component

end RequestRouting
