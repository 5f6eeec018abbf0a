import RequestRouting.Assets.Plan
import RequestRouting.Documents.Resource
import RequestRouting.Middleware.BasePath
import RequestRouting.Middleware.BasicAuth
import RequestRouting.Middleware.CacheControl
import RequestRouting.Middleware.Compress
import RequestRouting.Middleware.Cors
import RequestRouting.Middleware.NormalizePath
import RequestRouting.Middleware.StaticFiles
import RequestRouting.Routing.Capture
import RequestRouting.Routing.Chain
import RequestRouting.Routing.Router

/-!
# Handlers

A handler answers requests. Handlers form a tree, as those that wrap or choose among others hold
them. What stands outside of the tree is referred to by a place: the slot of the application it
belongs to, which captures lead back into, and all that changes while requests are served.
-/

namespace RequestRouting

/-- The error pages of an application, by number of the status. -/
structure ErrorPages where
  pages : Keyed Nat Capture
  /-- The slot of the application. -/
  application : Nat

/-- What is done around another handler. -/
inductive Middleware where
  /-- Strips a mount point. -/
  | basePath (basePath : BasePath)
  | normalizePath (normalizePath : NormalizePath)
  | compress (compress : Compress)
  | staticFiles (files : StaticFiles)
  | basicAuth (auth : BasicAuth)
  | cacheControl (cacheControl : CacheControl)
  | cors (cors : Cors)
  /-- Attaches values to requests. -/
  | attach (values : List (String × String))
  | filter (filter : Filter)
  /-- Generates artifacts, with the place of the times they were checked at. -/
  | assets (assets : Assets) (place : Nat)
  | errorPages (errorPages : ErrorPages)
  /-- Records the mount point of an application. -/
  | applicationRoot

/-- A handler. -/
inductive Handler where
  /-- Answers with a status. -/
  | status (status : Status)
  /-- Answers with a redirection to a URI. -/
  | redirect (uri : Template) (status : Status)
  | resource (resource : Resource)
  | documents (documents : Documents)
  /-- Captures requests into the application with the given slot, or another one. -/
  | capture (capture : Capture) (application : Nat)
  /-- Captures requests into a dispatcher, whose URI is found in the table at the given place. -/
  | dispatch (dispatch : Dispatch) (table application : Nat)
  | slot (place : Nat)
  | chain (chain : Chain) (handlers : List Handler)
  | router (router : Router) (handlers : List Handler)
  | layer (middleware : Middleware) (next : Handler)
  deriving Inhabited

/-- The handler that never handles anything. -/
def Handler.notFound : Handler := .status .notFound

end RequestRouting
