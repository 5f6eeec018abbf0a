import RequestRouting.Config.Descriptor
import RequestRouting.Documents.Executor

/-!
# Document resources

The manual and the template resource answer requests by executing documents. Besides the documents
of their source, they give access to library documents they let pass through.
-/

namespace RequestRouting

/-- A source of documents, and the place of its lookups. -/
structure Library where
  source : DocumentSource
  place : Nat

/-- A resource that answers requests by documents. -/
structure Documents where
  source : Library
  /-- The library documents that pass through. -/
  passThroughs : List String := []
  libraries : List Library := []
  purpose : Purpose
  libraryPaths : List String := []
  includes : List String := []
  language : String
  registry : Registry := {}
  /-- Whether requests without a slash at the end of their path are redirected. -/
  trailingSlash : Bool := false
  caching : CachingMode := .conditional
  maxAge : MaxAge := MaxAge.unset

namespace Documents

/-- Whether a library document passes through. -/
def passes (d : Documents) (name : String) : Bool :=
  d.passThroughs.any fun pass => Text.trim (· = '/') pass = name

/-- The invocation of a document. -/
def invocation (d : Documents) (document : Document) : Invocation where
  document
  purpose := d.purpose
  libraries := d.libraryPaths
  includes := d.includes
  language := d.language

/-- The redirection of a request without a slash at the end of its path. -/
def redirection? (d : Documents) (req : Request) : Option Response :=
  if d.trailingSlash && !Text.endsWith "/" req.uri.path then
    some (Response.redirect .movedPermanently
      (Uri.ofParts (req.reference ++ "/") req.uri.query).text)
  else none

/-- Whether a file modified at a point in time is unmodified since a date. Dates are whole seconds,
so fractions of a second don't count. -/
def isUnmodified (since : Date) (modified : Time) : Bool := modified / Time.second ≤ since.seconds

/-- Whether the client has a fresh copy of a document. -/
def isFresh (d : Documents) (req : Request) (document : Document) : Bool :=
  if d.caching = .disabled then false
  else match (req.headers.get? .ifModifiedSince).bind Date.parse?, document.modified with
    | some since, some modified => isUnmodified since modified
    | _, _ => false

/-- The response with header fields for client caching, those it has already being kept. -/
def stamp (d : Documents) (modified : Option Time) (res : Response) : Response :=
  if d.caching = .disabled || !res.status.isSuccess then res
  else
    let headers := match modified with
      | some modified => res.headers.insertIfAbsent .lastModified (Time.text modified)
      | none => res.headers
    let headers := if d.caching = .offline && 0 < d.maxAge then
        headers.insertIfAbsent .cacheControl ("max-age=" ++ toString d.maxAge)
      else headers
    { res with headers }

end Documents

/-- A library document that runs before and after another handler. -/
structure Filter where
  document : String
  libraries : List Library := []
  libraryPaths : List String := []
  language : String
  registry : Registry := {}

/-- The invocation of the document of a filter. -/
def Filter.invocation (f : Filter) (document : Document) : Invocation where
  document
  purpose := .filter
  libraries := f.libraryPaths
  includes := []
  language := f.language

end RequestRouting
