import RequestRouting.Config.Basic
import RequestRouting.Dispatch.Table
import RequestRouting.Json.Access

/-!
# Configuration in full

A configuration that was read can be shown as JSON with all defaults filled in. Node types have
their canonical name, time spans are shown in milliseconds and ages in seconds, and maps that keep
their order are shown as lists of pairs. Errors are shown as objects that name their kind.
-/

namespace RequestRouting

/-- Shows the kind of an error of the file system. -/
def FileError.view (e : FileError) : Json := .obj [("error", .str "Io"), ("kind", .str e.kind)]

/-- Shows an error. -/
def Error.view : Error → Json
  | .route uri source =>
    .obj [("error", .str "Route"), ("uri", .str uri), ("source", source.view),
      ("message", .str (Error.route uri source).message)]
  | .file e =>
    .obj ([("error", .str "Io"), ("kind", .str e.kind)] ++
      (e.message?.map fun message => ("message", .str message)).toList)
  | .json problem =>
    .obj [("error", .str "Json"), ("message", .str (withoutPosition (Error.json problem).message))]
  | e => .obj [("error", .str e.kind), ("message", .str e.message)]
  termination_by structural e => e

/-- The name of a choice. -/
def nameIn {α : Type} [DecidableEq α] (names : List (String × α)) (x : α) : Json :=
  Json.optional (fun (name, _) => .str name) (names.find? (·.2 = x))

/-- Shows a shorthand. -/
def Shorthand.view (s : Shorthand) : Json :=
  .obj (match s with
    | .hidden => [("kind", .str "hidden")]
    | .status code => [("kind", .str "status"), ("code", .nat code)]
    | .capture uri hide => [("kind", .str "capture"), ("uri", .str uri), ("hide", .bool hide)]
    | .redirect uri => [("kind", .str "redirect"), ("uri", .str uri)]
    | .dispatch dispatcher id =>
      [("kind", .str "dispatch"), ("dispatcher", .optional .str dispatcher), ("id", .str id)]
    | .resource name => [("kind", .str "resource"), ("name", .str name)]
    | .type name => [("kind", .str "type"), ("name", .str name)])

/-- Shows the fields of static files. -/
def StaticNode.view (n : StaticNode) : List (String × Json) :=
  [("root", .optional .str n.root), ("roots", .strings n.roots),
   ("listingAllowed", .bool n.listingAllowed), ("negotiate", .bool n.negotiate),
   ("compress", .bool n.compress), ("cacheDuration", .optional .nat n.cacheDuration)]

/-- Shows the fields of the manual resource. -/
def ManualNode.view (n : ManualNode) : List (String × Json) :=
  [("root", .optional .str n.root), ("passThroughs", .optional .strings n.passThroughs),
   ("preExtension", .optional .str n.preExtension),
   ("defaultDocumentName", .optional .str n.defaultDocumentName),
   ("defaultExtension", .optional .str n.defaultExtension),
   ("trailingSlashRequired", .optional .bool n.trailingSlashRequired),
   ("internalUri", .optional .str n.internalUri),
   ("clientCachingMode", .optional (nameIn CachingMode.names) n.clientCachingMode),
   ("maxClientCachingDuration", .optional .int n.maxClientCachingDuration),
   ("compress", .optional .bool n.compress)]

/-- Shows the fields of the template resource. -/
def TemplatesNode.view (n : TemplatesNode) : List (String × Json) :=
  [("root", .optional .str n.root), ("includeRoots", .optional .strings n.includeRoots),
   ("passThroughs", .optional .strings n.passThroughs),
   ("preExtension", .optional .str n.preExtension),
   ("defaultDocumentName", .optional .str n.defaultDocumentName),
   ("defaultExtension", .optional .str n.defaultExtension),
   ("clientCachingMode", .optional (nameIn CachingMode.names) n.clientCachingMode),
   ("maxClientCachingDuration", .optional .int n.maxClientCachingDuration),
   ("compress", .optional .bool n.compress)]

mutual

/-- Shows a descriptor. -/
def Descriptor.view : Descriptor → Json
  | .hidden => .str "hidden"
  | .chain nodes => .obj [("chain", .arr (viewAll nodes))]
  | .node n => n.view
  | .prebuilt name => .str name
  termination_by structural d => d

/-- Shows descriptors in order. -/
def viewAll : List Descriptor → List Json
  | [] => []
  | d :: rest => d.view :: viewAll rest
  termination_by structural l => l

/-- Shows routes in order. -/
def viewRoutes : List (String × Descriptor) → List Json
  | [] => []
  | (key, d) :: rest => .pair (.str key) d.view :: viewRoutes rest
  termination_by structural l => l

/-- Shows a map of routes. -/
def viewOrdered : Ordered Descriptor → Json
  | ⟨entries⟩ => .arr (viewRoutes entries)
  termination_by structural m => m

/-- Shows a node. -/
def Node.view : Node → Json
  | .static n => .obj (("type", .str "static") :: n.view)
  | .manual n => .obj (("type", .str "manual") :: n.view)
  | .templates n => .obj (("type", .str "templates") :: n.view)
  | .dispatch n =>
    .obj [("type", .str "dispatch"), ("id", .str n.id),
      ("dispatcher", .optional .str n.dispatcher), ("locals", .map id n.locals)]
  | .capture n =>
    .obj [("type", .str "capture"), ("uri", .str n.uri),
      ("application", .optional .str n.application), ("hidden", .bool n.hidden),
      ("locals", .map id n.locals)]
  | .redirect n =>
    .obj [("type", .str "redirect"), ("uri", .str n.uri),
      ("mode", nameIn RedirectMode.names n.mode)]
  | .addSlash => .obj [("type", .str "addSlash")]
  | .router ⟨routes, mode, ttl⟩ =>
    .obj [("type", .str "router"), ("routes", viewOrdered routes),
      ("routingMode", nameIn RoutingMode.names mode), ("cacheDuration", .optional .nat ttl)]
  | .chain ⟨nodes, ttl⟩ =>
    .obj [("type", .str "chain"), ("nodes", .arr (viewAll nodes)),
      ("cacheDuration", .optional .nat ttl)]
  | .filter ⟨library, next⟩ =>
    .obj [("type", .str "filter"), ("library", .str library), ("next", next.view)]
  | .injector ⟨locals, next⟩ =>
    .obj [("type", .str "injector"), ("locals", .map id locals), ("next", next.view)]
  | .cacheControl ⟨mediaTypes, default, next⟩ =>
    .obj [("type", .str "cacheControl"), ("mediaTypes", .pairs .int mediaTypes.entries),
      ("default", .int default), ("next", next.view)]
  | .cors ⟨origin, methods, headers, maxAge, next⟩ =>
    .obj [("type", .str "cors"), ("allowOrigin", .optional .str origin),
      ("allowMethods", .strings methods), ("allowHeaders", .strings headers),
      ("maxAge", .int maxAge), ("next", next.view)]
  | .basicAuth ⟨credentials, realm, next⟩ =>
    .obj [("type", .str "basicHttpAuthenticator"), ("credentials", .map .str credentials),
      ("realm", .optional .str realm), ("next", next.view)]
  | .status n => .obj [("type", .str "status"), ("code", .nat n.code)]
  | .resource n => .obj [("type", .str "resource"), ("class", .str n.name)]
  | .assets pipeline ⟨roots, next, minify⟩ =>
    .obj [("type", .str pipeline.name), ("roots", .strings roots), ("minify", .bool minify),
      ("next", next.view)]
  termination_by structural n => n

end

/-- Shows settings. -/
def Settings.view (s : Settings) : Json :=
  .obj
    [("description", .list (.optional .str) [s.description.name, s.description.description,
        s.description.author, s.description.owner]),
     ("libraries", .strings s.code.libraries),
     ("validity", .nat s.code.validity),
     ("defaultDocumentName", .str s.code.defaultDocumentName),
     ("defaultExtension", .str s.code.defaultExtension),
     ("defaultLanguageTag", .str s.code.defaultLanguageTag),
     ("uploads", .pair (.str s.uploads.root) (.nat s.uploads.sizeThreshold)),
     ("compression", .pair (.nat s.compression.sizeThreshold) (.strings s.compression.exclude)),
     ("mediaTypes", .map .str s.mediaTypes),
     ("logger", .optional .str s.logger)]

/-- Shows dispatchers. -/
def Dispatchers.view (d : Dispatchers) : Json :=
  .obj
    [("default", .optional .str d.default),
     ("entries", .pairs (fun d => .obj
        [("dispatcher", .optional .str d.document), ("resources", .optional .str d.resources),
         ("extra", .map id d.extra)]) d.entries.entries)]

/-- Shows a dispatch target. -/
def DispatchTarget.view (t : DispatchTarget) : Json :=
  .obj [("name", .str t.name), ("dispatcher", .str t.dispatcher), ("resources", .str t.resources),
    ("uri", .optional .str t.uri)]

/-- Shows a configuration. -/
def Config.view (c : Config) : Json :=
  .obj
    [("settings", c.settings.view),
     ("hosts", .pairs .str c.hosts.entries),
     ("routes", viewOrdered c.routes),
     ("errors", .list (fun (code, uri) => .pair (.nat code) (.str uri)) c.errors.entries),
     ("dispatchers", c.dispatchers.view),
     ("preheat", .strings c.preheat)]

end RequestRouting
