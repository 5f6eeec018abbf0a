import RequestRouting.Config.Descriptor
import RequestRouting.Http.Template

/-!
# Captures

A capture hands a request to another URI, of the same application or of another one, without the
client taking notice. The reference of the request is recorded first, unless an earlier capture did
so. The paths of all captures form the history of the request, and a path that is in it already
would lead around in a circle, so it's refused.
-/

namespace RequestRouting

/-- The history of a request: the paths it was captured to, one per line. -/
def Request.history (req : Request) : String :=
  (req.attributes.get? Attribute.history).getD ""

/-- A history with another path at its end. -/
def extendHistory (history path : String) : String :=
  if history.isEmpty then path else history ++ "\n" ++ path

/-- Whether a path is in a history. -/
def inHistory (history path : String) : Bool := (Text.lines history).contains path

/-- The request as it's captured to a URI, or nothing if that was in its history. The query of the
URI takes precedence over that of the request. -/
def Request.captured? (req : Request) (uri : String) (record : Bool) : Option Request :=
  let req := if record then
      { req with attributes := req.attributes.insertIfAbsent Attribute.captured req.reference }
    else req
  let uri := Uri.parse uri
  if inHistory req.history uri.path then none
  else
    let req := req.set Attribute.history (extendHistory req.history uri.path)
    let req := req.set Attribute.base ((req.attributes.get? Attribute.root).getD "")
    some { req with uri := Uri.ofParts uri.path (uri.query <|> req.uri.query) }

/-- An internal redirection to a URI. -/
structure Capture where
  uri : Template
  /-- Whether the reference of the request is recorded. -/
  record : Bool := true
  /-- Values attached to requests. -/
  locals : List (String × String) := []
  /-- The application captured into, if it's not the current one. -/
  application : Option String := none

namespace Capture

/-- The capture into the current application. -/
def ofUri (uri : String) : Capture where
  uri := .parse uri

/-- The capture of a configuration, with a mark for hidden targets removed. -/
def ofNode (node : CaptureNode) (uri : String) : Capture where
  uri := .parse uri
  locals := attributesOf node.locals
  application := node.application

/-- The request as it's captured, or nothing if it would lead around in a circle. -/
def forward? (c : Capture) (req : Request) : Option Request :=
  let uri := c.uri.expand req
  let req := req.setAll c.locals
  let req := if c.application.isSome then
      { req with attributes := req.attributes.erase Attribute.root }
    else req
  req.captured? uri c.record

end Capture

/-- A dispatch of an identifier. -/
structure Dispatch where
  id : Template
  dispatcher : String
  resources : String
  /-- Values attached to requests. -/
  locals : List (String × String) := []

namespace Dispatch

/-- The request as it's captured into the dispatcher at a URI, or nothing if it would lead around in
a circle. -/
def forward? (d : Dispatch) (uri : String) (req : Request) : Option Request :=
  let id := d.id.expand req
  let req := ((req.set Attribute.dispatchId id).set Attribute.dispatcher d.dispatcher).set
    Attribute.resources d.resources
  (req.setAll d.locals).captured? uri true

end Dispatch

end RequestRouting
