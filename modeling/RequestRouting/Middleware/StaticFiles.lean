import RequestRouting.Files.Listing
import RequestRouting.Http.MediaType
import RequestRouting.Http.Message

/-!
# Static files

Files below a root directory are served by the path of the request. What can't be served is left to
another handler.
-/

namespace RequestRouting

/-- The response with the content of a file. -/
def Response.ofFile (t : FileTree) (path : String) (types : MediaTypes) :
    Except FileError Response := do
  let body ← t.read path
  let res : Response :=
    { ((header {} .contentType (types.forPath path)).header .contentLength
        (toString body.size)) with body }
  return match t.modified? path with
    | some modified => res.header .lastModified (Time.text modified)
    | none => res

/-- The files below a root directory. -/
structure StaticFiles where
  root : String
  types : MediaTypes := MediaTypes.common
  /-- Whether media types are found by file extension. -/
  negotiate : Bool := true
  /-- Whether directories without index file are listed. -/
  listing : Bool := false
  index : String := "index.html"

namespace StaticFiles

/-- The files below a directory, which must exist. -/
def ofRoot (t : FileTree) (root : String) : Except FileError StaticFiles :=
  match (t.locate root).filter fun location => (t.at? location).isSome with
  | some location => .ok { root := Text.join "/" location }
  | none => .error (t.absence root)

/-- The path of the file or directory a request asks for, unless it might lead out of the root. -/
def resolve? (s : StaticFiles) (path : String) : Option String :=
  let relative := Text.trimLead (· = '/') path
  let isSafe : Path.Component → Bool
    | .normal _ | .current => true
    | .root | .parent => false
  if (Path.components relative).all isSafe then some (Path.join s.root relative) else none

/-- Whether the client has a copy of a file modified at the given time. Dates are a second off at
most, as they're rounded. -/
def isFresh (req : Request) (modified : Option Time) : Bool :=
  match (req.headers.get? .ifModifiedSince).bind Date.parse?, modified with
  | some date, some modified => modified ≤ (date.seconds + 1) * Time.second
  | _, _ => false

/-- Serves a file, if it can be read. -/
def serve? (s : StaticFiles) (t : FileTree) (now : Time) (req : Request) (path : String) :
    Option Response :=
  match Response.ofFile t path s.types with
  | .error _ => none
  | .ok res =>
    let res := if s.negotiate then res else res.header .contentType MediaType.octetStream
    let res := res.header .date (Time.text now)
    if isFresh req (t.modified? path) then
      some (Response.header { status := .notModified } .contentLength "0")
    else some (if req.method = .head then { res with body := .empty } else res)

/-- Serves a directory: by its index file, or else by a listing if that's allowed. -/
def serveFolder? (s : StaticFiles) (t : FileTree) (now : Time) (req : Request) (path : String) :
    Option Response :=
  if !Text.endsWith "/" req.uri.path then
    some (Response.redirect .found (Uri.ofParts (req.reference ++ "/") req.uri.query).text)
  else
    let index := Path.join path s.index
    if t.isFile index then s.serve? t now req index
    else if s.listing then
      (t.list? path).map fun entries =>
        let body := (Listing.page req.reference (FileTree.labels entries)).toUTF8
        { (Response.header {} .contentType "text/html; charset=utf-8").header .contentLength
            (toString body.size) with body }
    else none

/-- The response to a request, or nothing if it's left to another handler. -/
def answer? (s : StaticFiles) (t : FileTree) (now : Time) (req : Request) : Option Response :=
  if req.method ≠ .get && req.method ≠ .head then none
  else match s.resolve? req.uri.path with
    | none => none
    | some path =>
      if t.isFolder path then s.serveFolder? t now req path else s.serve? t now req path

end StaticFiles

end RequestRouting
