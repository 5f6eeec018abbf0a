import RequestRouting.Config.Settings
import RequestRouting.Config.Shorthand

/-!
# Descriptors

A descriptor says what stands at a position of the route table: nothing visible, a chain of
descriptors to try in order, a node of the catalogue with its configuration, or a node built
beforehand. Nodes that wrap other nodes are parameterised by what they wrap.
-/

namespace RequestRouting

/-- How responses of documents may be cached by clients. -/
inductive CachingMode where
  /-- Not at all. -/
  | disabled
  /-- By modification date. -/
  | conditional
  /-- By modification date, and without asking until an age is reached. -/
  | offline
  deriving DecidableEq, Repr

/-- How a redirection is made. -/
inductive RedirectMode where
  | permanent
  | found
  | seeOther
  | temporary
  | serverOutbound
  | serverInbound
  deriving DecidableEq, Repr

/-- How one of several matching routes is selected. -/
inductive RoutingMode where
  | best
  | first
  | last
  | random
  | next
  | custom
  deriving DecidableEq, Repr

/-- What an asset node generates. -/
inductive Pipeline where
  /-- Scripts joined into one. -/
  | scripts
  /-- Style sheets joined into one. -/
  | styles
  /-- Style sheets compiled from a dialect. -/
  | less
  | zuss
  deriving DecidableEq, Repr

/-- Static files. -/
structure StaticNode where
  root : Option String := none
  roots : List String := ["resources"]
  listingAllowed : Bool := false
  negotiate : Bool := true
  compress : Bool := true
  cacheDuration : Option Duration := none

/-- The manual resource: documents that handle requests. -/
structure ManualNode where
  root : Option String := none
  passThroughs : Option (List String) := none
  preExtension : Option String := none
  defaultDocumentName : Option String := none
  defaultExtension : Option String := none
  trailingSlashRequired : Option Bool := none
  internalUri : Option String := none
  clientCachingMode : Option CachingMode := none
  maxClientCachingDuration : Option MaxAge := none
  compress : Option Bool := none
  deriving DecidableEq

/-- The template resource: documents that render responses. -/
structure TemplatesNode where
  root : Option String := none
  includeRoots : Option (List String) := none
  passThroughs : Option (List String) := none
  preExtension : Option String := none
  defaultDocumentName : Option String := none
  defaultExtension : Option String := none
  clientCachingMode : Option CachingMode := none
  maxClientCachingDuration : Option MaxAge := none
  compress : Option Bool := none
  deriving DecidableEq

/-- A dispatch of an identifier. -/
structure DispatchNode where
  id : String
  dispatcher : Option String := none
  locals : Keyed String Json := {}

/-- An internal redirection. -/
structure CaptureNode where
  uri : String
  application : Option String := none
  hidden : Bool := false
  locals : Keyed String Json := {}

/-- A redirection. -/
structure RedirectNode where
  uri : String
  mode : RedirectMode := .permanent

/-- A fixed status. -/
structure StatusNode where
  code : Nat := 200

/-- A handler registered by name. -/
structure ResourceNode where
  name : String

/-- A router. -/
structure RouterNode (δ : Type) where
  routes : Ordered δ := {}
  routingMode : RoutingMode := .best
  cacheDuration : Option Duration := none

/-- A chain of nodes. -/
structure ChainNode (δ : Type) where
  nodes : List δ := []
  cacheDuration : Option Duration := none

/-- A library document around a node. -/
structure FilterNode (δ : Type) where
  library : String
  next : δ

/-- Values attached to requests. -/
structure InjectorNode (δ : Type) where
  locals : Keyed String Json := {}
  next : δ

/-- Header fields for client caching, by media type. -/
structure CacheControlNode (δ : Type) where
  mediaTypes : Ordered MaxAge := {}
  default : MaxAge := MaxAge.unset
  next : δ

/-- Header fields for requests from other origins. -/
structure CorsNode (δ : Type) where
  allowOrigin : Option String := none
  allowMethods : List String := []
  allowHeaders : List String := []
  maxAge : MaxAge := MaxAge.unset
  next : δ

/-- Basic authentication. -/
structure AuthNode (δ : Type) where
  credentials : Keyed String String := {}
  realm : Option String := none
  next : δ

/-- Artifacts generated from sources. -/
structure AssetNode (δ : Type) where
  roots : List String := ["resources"]
  next : δ
  minify : Bool := true

mutual

/-- What stands at a position of the route table. -/
inductive Descriptor where
  | hidden
  | chain (nodes : List Descriptor)
  | node (node : Node)
  /-- A node built beforehand, by name. -/
  | prebuilt (name : String)

/-- A node of the catalogue. -/
inductive Node where
  | static (node : StaticNode)
  | manual (node : ManualNode)
  | templates (node : TemplatesNode)
  | dispatch (node : DispatchNode)
  | capture (node : CaptureNode)
  | redirect (node : RedirectNode)
  | addSlash
  | router (node : RouterNode Descriptor)
  | chain (node : ChainNode Descriptor)
  | filter (node : FilterNode Descriptor)
  | injector (node : InjectorNode Descriptor)
  | cacheControl (node : CacheControlNode Descriptor)
  | cors (node : CorsNode Descriptor)
  | basicAuth (node : AuthNode Descriptor)
  | status (node : StatusNode)
  | resource (node : ResourceNode)
  | assets (pipeline : Pipeline) (node : AssetNode Descriptor)

end

instance : Inhabited Descriptor := ⟨.hidden⟩

/-- The name of an asset node. -/
def Pipeline.name : Pipeline → String
  | scripts => "javaScriptUnifyMinify"
  | styles => "cssUnifyMinify"
  | less => "less"
  | zuss => "zuss"

/-- The name of a node type. -/
def Node.name : Node → String
  | static _ => "static"
  | manual _ => "manual"
  | templates _ => "templates"
  | dispatch _ => "dispatch"
  | capture _ => "capture"
  | redirect _ => "redirect"
  | addSlash => "addSlash"
  | router _ => "router"
  | chain _ => "chain"
  | filter _ => "filter"
  | injector _ => "injector"
  | cacheControl _ => "cacheControl"
  | cors _ => "cors"
  | basicAuth _ => "basicHttpAuthenticator"
  | status _ => "status"
  | resource _ => "resource"
  | assets pipeline _ => pipeline.name

/-- The name of a descriptor. -/
def Descriptor.name : Descriptor → String
  | hidden => "hidden"
  | chain _ => "chain"
  | node n => n.name
  | prebuilt name => name

namespace CachingMode

/-- All modes by name. -/
def names : List (String × CachingMode) :=
  [("disabled", disabled), ("conditional", conditional), ("offline", offline)]

end CachingMode

namespace RedirectMode

/-- All modes by name. -/
def names : List (String × RedirectMode) :=
  [("permanent", permanent), ("found", found), ("seeOther", seeOther), ("temporary", temporary),
   ("serverOutbound", serverOutbound), ("serverInbound", serverInbound)]

end RedirectMode

namespace RoutingMode

/-- All modes by name. -/
def names : List (String × RoutingMode) :=
  [("best", best), ("first", first), ("last", last), ("random", random), ("next", next),
   ("custom", custom)]

end RoutingMode

namespace Node

open Json.Decoder

/-- Reads values to attach to requests. -/
def localsDecoder : Json.Decoder Error (Keyed String Json) := keyed fun v => .ok v

/-- Reads the members of an object as a record. -/
def read {σ : Type} (fields : List (Field Error σ)) (start : σ) (ms : List (String × Json)) :
    Except Error σ :=
  (members fields [] ms start).mapError .json

/-- Reads static files. -/
def readStatic : List (String × Json) → Except Error StaticNode :=
  read
    [field "root" (optional path) fun x s => { s with root := x },
     field "roots" (list path) fun x s => { s with roots := x },
     field "listingAllowed" boolean fun x s => { s with listingAllowed := x },
     field "negotiate" boolean fun x s => { s with negotiate := x },
     field "compress" boolean fun x s => { s with compress := x },
     field "cacheDuration" (optional duration) fun x s => { s with cacheDuration := x }]
    {}

/-- Reads the manual resource. -/
def readManual : List (String × Json) → Except Error ManualNode :=
  read
    [field "root" (optional path) fun x s => { s with root := x },
     field "passThroughs" (optional (list string)) fun x s => { s with passThroughs := x },
     field "preExtension" (optional string) fun x s => { s with preExtension := x },
     field "defaultDocumentName" (optional string) fun x s => { s with defaultDocumentName := x },
     field "defaultExtension" (optional string) fun x s => { s with defaultExtension := x },
     field "trailingSlashRequired" (optional boolean) fun x s =>
       { s with trailingSlashRequired := x },
     field "internalUri" (optional string) fun x s => { s with internalUri := x },
     field "clientCachingMode" (optional (choice CachingMode.names)) fun x s =>
       { s with clientCachingMode := x },
     field "maxClientCachingDuration" (optional maxAge) fun x s =>
       { s with maxClientCachingDuration := x },
     field "compress" (optional boolean) fun x s => { s with compress := x }]
    {}

/-- Reads the template resource. -/
def readTemplates : List (String × Json) → Except Error TemplatesNode :=
  read
    [field "root" (optional path) fun x s => { s with root := x },
     field "includeRoots" (optional (list path)) fun x s => { s with includeRoots := x },
     field "passThroughs" (optional (list string)) fun x s => { s with passThroughs := x },
     field "preExtension" (optional string) fun x s => { s with preExtension := x },
     field "defaultDocumentName" (optional string) fun x s => { s with defaultDocumentName := x },
     field "defaultExtension" (optional string) fun x s => { s with defaultExtension := x },
     field "clientCachingMode" (optional (choice CachingMode.names)) fun x s =>
       { s with clientCachingMode := x },
     field "maxClientCachingDuration" (optional maxAge) fun x s =>
       { s with maxClientCachingDuration := x },
     field "compress" (optional boolean) fun x s => { s with compress := x }]
    {}

/-- Reads a dispatch. -/
def readDispatch : List (String × Json) → Except Error DispatchNode :=
  read
    [requiredField "id" string fun x s => { s with id := x },
     field "dispatcher" (optional string) fun x s => { s with dispatcher := x },
     field "locals" localsDecoder fun x s => { s with locals := x }]
    { id := "" }

/-- Reads a capture. -/
def readCapture : List (String × Json) → Except Error CaptureNode :=
  read
    [requiredField "uri" string fun x s => { s with uri := x },
     field "application" (optional string) fun x s => { s with application := x },
     field "hidden" boolean fun x s => { s with hidden := x },
     field "locals" localsDecoder fun x s => { s with locals := x }]
    { uri := "" }

/-- Reads a redirection. -/
def readRedirect : List (String × Json) → Except Error RedirectNode :=
  read
    [requiredField "uri" string fun x s => { s with uri := x },
     field "mode" (choice RedirectMode.names) fun x s => { s with mode := x }]
    { uri := "" }

/-- Reads a status. -/
def readStatus : List (String × Json) → Except Error StatusNode :=
  read [field "code" word fun x s => { s with code := x }] {}

/-- Reads a resource. -/
def readResource : List (String × Json) → Except Error ResourceNode :=
  read [requiredField "class" string fun x s => { s with name := x }] { name := "" }

/-- Reads a wrapped descriptor. -/
def descriptorDecoder (descriptor : Json → Except Error Descriptor) :
    Json.Decoder Error Descriptor :=
  fun v => (descriptor v).mapError .other

variable (descriptor : Json → Except Error Descriptor)

/-- The field of a wrapped descriptor. -/
def nextField {σ : Type} (store : Descriptor → σ → σ) : Field Error σ :=
  requiredField "next" (descriptorDecoder descriptor) store

/-- Reads a router. -/
def readRouter : List (String × Json) → Except Error (RouterNode Descriptor) :=
  read
    [field "routes" (ordered (descriptorDecoder descriptor)) fun x s => { s with routes := x },
     field "routingMode" (choice RoutingMode.names) fun x s => { s with routingMode := x },
     field "cacheDuration" (optional duration) fun x s => { s with cacheDuration := x }]
    {}

/-- Reads a chain. -/
def readChain : List (String × Json) → Except Error (ChainNode Descriptor) :=
  read
    [{ field "nodes" (list (descriptorDecoder descriptor)) fun x s => { s with nodes := x } with
       aliases := ["restlets"] },
     field "cacheDuration" (optional duration) fun x s => { s with cacheDuration := x }]
    {}

/-- Reads a filter. -/
def readFilter : List (String × Json) → Except Error (FilterNode Descriptor) :=
  read
    [requiredField "library" string fun x s => { s with library := x },
     nextField descriptor fun x s => { s with next := x }]
    { library := "", next := .hidden }

/-- Reads an injector. -/
def readInjector : List (String × Json) → Except Error (InjectorNode Descriptor) :=
  read
    [field "locals" localsDecoder fun x s => { s with locals := x },
     nextField descriptor fun x s => { s with next := x }]
    { next := .hidden }

/-- Reads header fields for client caching. -/
def readCacheControl : List (String × Json) → Except Error (CacheControlNode Descriptor) :=
  read
    [field "mediaTypes" (ordered maxAge) fun x s => { s with mediaTypes := x },
     field "default" maxAge fun x s => { s with default := x },
     nextField descriptor fun x s => { s with next := x }]
    { next := .hidden }

/-- Reads header fields for requests from other origins. -/
def readCors : List (String × Json) → Except Error (CorsNode Descriptor) :=
  read
    [field "allowOrigin" (optional string) fun x s => { s with allowOrigin := x },
     field "allowMethods" (list string) fun x s => { s with allowMethods := x },
     field "allowHeaders" (list string) fun x s => { s with allowHeaders := x },
     field "maxAge" maxAge fun x s => { s with maxAge := x },
     nextField descriptor fun x s => { s with next := x }]
    { next := .hidden }

/-- Reads basic authentication. -/
def readAuth : List (String × Json) → Except Error (AuthNode Descriptor) :=
  read
    [field "credentials" (keyed string) fun x s => { s with credentials := x },
     field "realm" (optional string) fun x s => { s with realm := x },
     nextField descriptor fun x s => { s with next := x }]
    { next := .hidden }

/-- Reads artifacts. -/
def readAssets : List (String × Json) → Except Error (AssetNode Descriptor) :=
  read
    [field "roots" (list path) fun x s => { s with roots := x },
     nextField descriptor fun x s => { s with next := x },
     field "minify" boolean fun x s => { s with minify := x }]
    { next := .hidden }

/-- Reads a node from the name of its type and its fields. -/
def ofParts (name : String) (fields : List (String × Json)) : Except Error Node :=
  match name with
  | "static" => (readStatic fields).map .static
  | "manual" => (readManual fields).map .manual
  | "templates" => (readTemplates fields).map .templates
  | "dispatch" => (readDispatch fields).map .dispatch
  | "capture" => (readCapture fields).map .capture
  | "redirect" => (readRedirect fields).map .redirect
  | "addSlash" => (read [] () fields).map fun _ => .addSlash
  | "router" => (readRouter descriptor fields).map .router
  | "chain" | "fallback" => (readChain descriptor fields).map .chain
  | "filter" => (readFilter descriptor fields).map .filter
  | "injector" => (readInjector descriptor fields).map .injector
  | "cacheControl" => (readCacheControl descriptor fields).map .cacheControl
  | "cors" => (readCors descriptor fields).map .cors
  | "basicHttpAuthenticator" => (readAuth descriptor fields).map .basicAuth
  | "status" => (readStatus fields).map .status
  | "resource" => (readResource fields).map .resource
  | "javaScriptUnifyMinify" => (readAssets descriptor fields).map (.assets .scripts)
  | "cssUnifyMinify" => (readAssets descriptor fields).map (.assets .styles)
  | "less" => (readAssets descriptor fields).map (.assets .less)
  | "zuss" => (readAssets descriptor fields).map (.assets .zuss)
  | _ => .error (.unknownType name)

end Node

/-- The node a shorthand stands for. A hidden route is no node. -/
def Node.ofShorthand : Shorthand → Except Error Node
  | .hidden => .error (.malformed "hidden")
  | .status code => .ok (.status { code })
  | .capture uri hidden => .ok (.capture { uri, hidden })
  | .redirect uri => .ok (.redirect { uri })
  | .dispatch dispatcher id => .ok (.dispatch { id, dispatcher })
  | .resource name => .ok (.resource { name })
  | .type name => Node.ofParts (fun _ => .error (.malformed "")) name []

namespace Descriptor

/-- Reads a descriptor from a shorthand. -/
def ofText (text : String) : Except Error Descriptor :=
  match Shorthand.parse? text with
  | none => .error (.malformed text)
  | some .hidden => .ok .hidden
  | some shorthand => (Node.ofShorthand shorthand).map .node

/-- Removes the member with the given key, the last member taking its place. -/
def takeMember (key : String) (members : List (String × Json)) :
    Option Json × List (String × Json) :=
  match members.findIdx? (·.1 = key) with
  | none => (none, members)
  | some i =>
    let value := (members[i]?).map (·.2)
    match members.getLast? with
    | some last =>
      (value, if i + 1 = members.length then members.dropLast else (members.set i last).dropLast)
    | none => (value, [])

/-- Reads a descriptor nested less deep than the given number. -/
def decode : Nat → Json → Except Error Descriptor
  | 0, v => .error (.malformed v.text)
  | depth + 1, v =>
    match v with
    | .str text => ofText text
    | .arr items => (items.mapM (decode depth)).map .chain
    | .obj members =>
      match takeMember "type" members with
      | (some (.str name), fields) => (Node.ofParts (decode depth) name fields).map .node
      | (some v, _) => .error (.malformed v.text)
      | (none, _) => .error (.malformed "object without type")
    | v => .error (.malformed v.text)

/-- Reads a descriptor: a shorthand, an array of descriptors, or an object that names the type of a
node and has its fields as its other members. -/
def ofJson (v : Json) : Except Error Descriptor := decode (v.depth + 1) v

end Descriptor

/-- Reads a node from the name of its type and its fields. -/
def Node.ofFields (name : String) (fields : List (String × Json)) : Except Error Node :=
  Node.ofParts Descriptor.ofJson name fields

/-- The values to attach to requests: strings as they are, and all others as JSON text. -/
def attributesOf (locals : Keyed String Json) : List (String × String) :=
  locals.entries.map fun
    | (key, .str s) => (key, s)
    | (key, v) => (key, v.text)

end RequestRouting
