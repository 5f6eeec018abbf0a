import RequestRouting.Assembly.Context
import RequestRouting.Http.Template

/-!
# Resolving descriptors

A descriptor is resolved into a handler by recursion on it, a node after the nodes it wraps. Prebuilt
nodes refer to each other by name, so they're kept from being resolved within themselves.
-/

namespace RequestRouting

/-- The way prebuilt nodes are resolved, given their name and URI. -/
abbrev ResolvePrebuilt := String → String → Assembly Resolved

namespace Assembly

/-- The handler that offers requests to several handlers in order. -/
def chainOf (ttl : Duration) : List Handler → Assembly Handler
  | [] => return .notFound
  | [handler] => return handler
  | handlers => do
    let place ← add (·.addChain)
    return .chain { ttl, place } handlers

/-- The handler with compression by the settings, if it's asked for. -/
def compressed (isCompressed : Bool) (handler : Handler) : Assembly Handler := do
  if isCompressed then return .layer (.compress (← context).compress) handler
  else return handler

/-- The handlers of the roots that exist. -/
def staticRoots (node : StaticNode) : Assembly (List Handler) := do
  let s ← get
  let roots := match node.root with
    | some root => [root]
    | none => node.roots
  return roots.filterMap fun root =>
    (StaticFiles.ofRoot s.world.files (s.context.path root)).toOption.map fun files =>
      .layer (.staticFiles { files with
        types := s.context.types
        negotiate := node.negotiate
        listing := node.listingAllowed }) .notFound

/-- Resolves static files. -/
def resolveStatic (node : StaticNode) : Assembly Resolved := do
  let handler ← chainOf (node.cacheDuration.getD (← context).ttl) (← staticRoots node)
  return .handler (← compressed node.compress handler)

/-- Resolves a dispatch. -/
def resolveDispatch (node : DispatchNode) : Assembly Resolved := do
  let c ← context
  let name := node.dispatcher.getD c.dispatch.defaultName
  let table := c.dispatch.reference node.dispatcher
  modifyContext fun c => { c with dispatch := table }
  let resources := ((table.get? name).map (·.resources)).getD ""
  return .handler (.dispatch
    { id := .parse node.id, dispatcher := name, resources, locals := attributesOf node.locals }
    c.table c.application)

/-- Resolves a capture. -/
def resolveCapture (node : CaptureNode) : Assembly Resolved := do
  let marked := Text.dropTail? "!" node.uri
  let uri := marked.getD node.uri
  if node.hidden || marked.isSome then hide uri
  return .handler (.capture (.ofNode node uri) (← context).application)

/-- The status of a redirection that is left to the client. -/
def redirectStatus? : RedirectMode → Option Status
  | .permanent => some .movedPermanently
  | .found => some .found
  | .seeOther => some .seeOther
  | .temporary => some .temporaryRedirect
  | .serverOutbound | .serverInbound => none

/-- Resolves a redirection. -/
def resolveRedirect (node : RedirectNode) : Assembly Resolved := do
  match redirectStatus? node.mode with
  | some status => return .handler (.redirect (.parse node.uri) status)
  | none =>
    return .handler (.capture { Capture.ofUri node.uri with record := false }
      (← context).application)

/-- The filter of a configuration. -/
def filterOf (document : String) : Assembly Middleware := do
  let c ← context
  return .filter
    { document
      libraries := c.libraries
      libraryPaths := c.libraryPaths
      language := c.settings.code.defaultLanguageTag
      registry := c.registry }

/-- The middleware of a configuration of client caching. -/
def cacheControlOf {δ : Type} (node : CacheControlNode δ) : Middleware :=
  .cacheControl { rules := node.mediaTypes.entries, default := node.default }

/-- The middleware of a configuration of basic authentication. -/
def basicAuthOf {δ : Type} (node : AuthNode δ) : Middleware :=
  .basicAuth { credentials := node.credentials, realm := node.realm.getD "Restricted" }

/-- The compiler of a pipeline that has one. -/
def compilerOf (pipeline : Pipeline) : Assembly (Option Compiler) := do
  if pipeline.isCompiled then
    match (← context).registry.compiler? pipeline.source with
    | some compiler => return some compiler
    | none => throw (.compiler pipeline.source)
  else return none

/-- The middleware that generates artifacts. -/
def assetsOf {δ : Type} (pipeline : Pipeline) (compiler : Option Compiler) (node : AssetNode δ) :
    Assembly Middleware := do
  let c ← context
  let place ← add (·.addChecks)
  return .assets
    { roots := node.roots.map c.path
      pipeline
      compiler
      minifier := if node.minify then c.registry.minifier? pipeline.artifact else none
      validity := c.validity }
    place

/-- The URI of a route below another one. -/
def below (uri key : String) : String := clean (Text.trimTail (· = '*') uri ++ "/" ++ key)

/-- Attaches a resolved node to a router with its handlers. -/
def attachResolved (route : Route) (router : Router × List Handler) :
    Resolved → Assembly (Router × List Handler)
  | .hidden => return (router.1.hide route, router.2)
  | .handler handler =>
    match router.1.attach route with
    | .ok r => return (r, router.2 ++ [handler])
    | .error error => throw (.matcher error)

/-- Reads a route. -/
def routeOf (text : String) : Assembly Route :=
  match Route.parse text with
  | .ok route => return route
  | .error error => throw (.matcher (.route error))

/-- Refuses a mode that configuration can't express. -/
def requireMode (mode : RoutingMode) : Assembly Unit :=
  if mode = .custom then throw (.unsupported "custom routing mode") else return

end Assembly

open Assembly

mutual

/-- Resolves a descriptor at a URI. -/
def Descriptor.resolve (prebuilt : ResolvePrebuilt) : Descriptor → String → Assembly Resolved
  | .hidden, _ => return .hidden
  | .chain nodes, uri => do
    let ttl := (← context).ttl
    return .handler (← chainOf ttl (← resolveAll prebuilt nodes uri))
  | .node n, uri => n.resolve prebuilt uri
  | .prebuilt name, uri => prebuilt name uri
  termination_by structural d => d

/-- Resolves descriptors at a URI in order, leaving out those that are hidden. -/
def resolveAll (prebuilt : ResolvePrebuilt) : List Descriptor → String → Assembly (List Handler)
  | [], _ => return []
  | d :: rest, uri => do
    match ← d.resolve prebuilt uri with
    | .hidden => resolveAll prebuilt rest uri
    | .handler handler => return handler :: (← resolveAll prebuilt rest uri)
  termination_by structural l => l

/-- Resolves the routes of a router at a URI, attaching them in order. -/
def resolveRoutes (prebuilt : ResolvePrebuilt) :
    List (String × Descriptor) → String → Router × List Handler → Assembly (Router × List Handler)
  | [], _, router => return router
  | (key, d) :: rest, uri, router => do
    let key := clean key
    let full := below uri key
    let route ← located full (routeOf key)
    let resolved ← located full (d.resolve prebuilt full)
    let router ← located full (attachResolved route router resolved)
    resolveRoutes prebuilt rest uri router
  termination_by structural l => l

/-- Resolves a router at a URI. -/
def resolveOrdered (prebuilt : ResolvePrebuilt) :
    Ordered Descriptor → String → RoutingMode → Option Duration → Assembly (Router × List Handler)
  | ⟨entries⟩, uri, mode, ttl => do
    requireMode mode
    let place ← add (·.addTurn)
    withTtl ttl (resolveRoutes prebuilt entries uri ({ mode, place }, []))
  termination_by structural routes => routes

/-- Resolves a node at a URI. -/
def Node.resolve (prebuilt : ResolvePrebuilt) : Node → String → Assembly Resolved
  | .static node, _ => resolveStatic node
  | .manual node, _ => return .handler (.slot (← registerManual node))
  | .templates node, _ => return .handler (.slot (← registerTemplates node))
  | .dispatch node, _ => resolveDispatch node
  | .capture node, _ => resolveCapture node
  | .redirect node, _ => resolveRedirect node
  | .addSlash, _ =>
    return .handler (.layer (.normalizePath
      { slash := .append, status := .movedPermanently, skipFiles := false }) .notFound)
  | .router ⟨routes, mode, ttl⟩, uri => do
    let (router, handlers) ← resolveOrdered prebuilt routes uri mode ttl
    return .handler (.router router handlers)
  | .chain ⟨nodes, ttl⟩, uri => do
    let ttl := ttl.getD (← context).ttl
    return .handler (← chainOf ttl (← resolveAll prebuilt nodes uri))
  | .filter ⟨library, next⟩, uri => do
    let next ← next.resolve prebuilt uri
    return .handler (.layer (← filterOf library) next.toHandler)
  | .injector ⟨locals, next⟩, uri => do
    let next ← next.resolve prebuilt uri
    return .handler (.layer (.attach (attributesOf locals)) next.toHandler)
  | .cacheControl ⟨mediaTypes, default, next⟩, uri => do
    let resolved ← next.resolve prebuilt uri
    return .handler (.layer (cacheControlOf ⟨mediaTypes, default, next⟩) resolved.toHandler)
  | .cors ⟨allowOrigin, allowMethods, allowHeaders, maxAge, next⟩, uri => do
    let resolved ← next.resolve prebuilt uri
    return .handler (.layer
      (.cors (.ofNode ⟨allowOrigin, allowMethods, allowHeaders, maxAge, next⟩)) resolved.toHandler)
  | .basicAuth ⟨credentials, realm, next⟩, uri => do
    let resolved ← next.resolve prebuilt uri
    return .handler (.layer (basicAuthOf ⟨credentials, realm, next⟩) resolved.toHandler)
  | .status node, _ =>
    match Status.ofCode? node.code with
    | some status => return .handler (.status status)
    | none => throw (.status node.code)
  | .resource node, _ => do
    match (← context).registry.resource? node.name with
    | some resource => return .handler (.resource resource)
    | none => throw (.unknownResource node.name)
  | .assets pipeline ⟨roots, next, minify⟩, uri => do
    let compiler ← compilerOf pipeline
    let resolved ← next.resolve prebuilt uri
    return .handler (.layer (← assetsOf pipeline compiler ⟨roots, next, minify⟩)
      resolved.toHandler)
  termination_by structural n => n

end

namespace Assembly

/-- Runs the creation of a prebuilt node, unless it's going on already at the same URI. -/
def guarded (name uri : String) (create : Assembly Resolved) : Assembly Resolved := fun s =>
  if s.context.resolving.contains (uri, name) then (.error (.cycle uri), s)
  else
    let (result, s') :=
      create { s with context.resolving := s.context.resolving ++ [(uri, name)] }
    (result, { s' with context.resolving := s.context.resolving })

/-- Creates a prebuilt node, given how others are resolved. -/
def createPrebuilt (resolve : ResolvePrebuilt) (uri : String) : Prebuilt → Assembly Resolved
  | .closure response => do
    let response := response (← context).name uri
    let place ← add (·.addCalls)
    return .handler (.resource { place, answer := fun _ _ => response })
  | .family handler steps =>
    steps.foldlM (fun _ (name, uri?) => resolve name (uri?.getD uri))
      ((handler.map Resolved.handler).getD .hidden)

/-- Resolves a prebuilt node, nested less deep than the given number. -/
def resolvePrebuilt : Nat → ResolvePrebuilt
  | 0, _, uri => throw (.cycle uri)
  | fuel + 1, name, uri => do
    match (← context).prebuilt.find? (·.1 = name) with
    | none => return .hidden
    | some (_, node) => guarded name uri (createPrebuilt (resolvePrebuilt fuel) uri node)

/-- The steps of a prebuilt node. -/
def steps : Prebuilt → List (String × Option String)
  | .closure _ => []
  | .family _ steps => steps

/-- How deep prebuilt nodes can be nested at most: a node occurs once for every URI, which is the one
that was started with or that of a step. -/
def nestingBound (nodes : List (String × Prebuilt)) : Nat :=
  nodes.length * ((nodes.flatMap fun (_, node) => steps node).length + 1) + 1

/-- Resolves a descriptor at a URI. -/
def resolve (d : Descriptor) (uri : String) : Assembly Resolved := do
  d.resolve (resolvePrebuilt (nestingBound (← context).prebuilt)) uri

end Assembly

end RequestRouting
