import RequestRouting.Http.Header
import RequestRouting.Http.Method
import RequestRouting.Http.Status
import RequestRouting.Http.Uri

/-!
# Requests and responses

A request carries attributes besides its HTTP parts: values that handlers write for handlers further
down. One of them, the base, holds the mount points that were stripped from the path, so the path as
it was requested is the base followed by the path.
-/

namespace RequestRouting

/-- Values attached to a request. -/
abbrev Attributes := Keyed String String

namespace Attribute

/-- The mount points stripped from the path. -/
def base : String := "trellis.base"

/-- The reference of the request as it was received, before any capture. -/
def captured : String := "trellis.captured"

/-- The paths the request was captured to so far, one per line. -/
def history : String := "trellis.capture.history"

/-- The mount point of the application. -/
def root : String := "trellis.root"

/-- The name of the authenticated user. -/
def user : String := "trellis.user"

/-- The number of the status an error page is rendered for. -/
def error : String := "trellis.error"

/-- The identifier given to a dispatcher. -/
def dispatchId : String := "trellis.dispatch.id"

/-- The name of a dispatcher. -/
def dispatcher : String := "trellis.dispatch.dispatcher"

/-- The library URI where a dispatcher looks up identifiers. -/
def resources : String := "trellis.dispatch.resources"

end Attribute

/-- A request. -/
structure Request where
  method : Method := .get
  uri : Uri := {}
  headers : Headers := {}
  attributes : Attributes := {}
  body : ByteArray := .empty

/-- Requests are equal if all of their parts are, bodies byte by byte. -/
instance : DecidableEq Request := fun a b =>
  decidable_of_decidable_of_iff (p := a.method = b.method ∧ a.uri = b.uri ∧ a.headers = b.headers ∧
    a.attributes = b.attributes ∧ a.body.data = b.body.data) <| by
      cases a
      cases b
      simp [ByteArray.ext_iff]

namespace Request

/-- The path as it was requested: the base without its trailing slashes, and the path. -/
def reference (req : Request) : String :=
  match req.attributes.get? Attribute.base with
  | some base =>
    if base.isEmpty then req.uri.path else Text.trimTail (· = '/') base ++ req.uri.path
  | none => req.uri.path

/-- Whether the request was captured before. -/
def isInternal (req : Request) : Bool := req.attributes.contains Attribute.history

/-- Sets an attribute. -/
def set (req : Request) (key value : String) : Request :=
  { req with attributes := req.attributes.insert key value }

/-- Sets several attributes. -/
def setAll (req : Request) (values : List (String × String)) : Request :=
  { req with attributes := req.attributes.insertMany values }

/-- A summary of the request. -/
def text (req : Request) : String :=
  req.method.name ++ " " ++ req.uri.text ++ " HTTP/1.1\n" ++ Headers.text req.headers ++
    "[Body: " ++ toString req.body.size ++ " bytes]"

end Request

/-- A response. -/
structure Response where
  status : Status := .ok
  headers : Headers := {}
  body : ByteArray := .empty

namespace Response

/-- Sets a header field. -/
def header (res : Response) (header : Header) (value : String) : Response :=
  { res with headers := res.headers.insert header value }

/-- The media type of the body. -/
def mediaType? (res : Response) : Option String := res.headers.get? .contentType

/-- Sets the body to a text. -/
def withText (res : Response) (content : String) : Response :=
  let body := content.toUTF8
  { (res.header .contentType "text/plain; charset=utf-8").header .contentLength
      (toString body.size) with body }

/-- A response with a text. -/
def ofText (content : String) : Response := withText {} content

/-- A response with the reason phrase of a status as its text. -/
def ofStatus (status : Status) : Response := withText { status } status.reason

/-- A redirection. -/
def redirect (status : Status) (location : String) : Response :=
  (header { status } .location location).header .contentLength "0"

/-- A summary of the response. -/
def summary (res : Response) : String :=
  "HTTP/1.1 " ++ res.status.text ++ "\n" ++ Headers.text res.headers ++
    "[Body: " ++ toString res.body.size ++ " bytes]"

end Response

end RequestRouting
