import RequestRouting.Files.Path
import RequestRouting.Http.Message

/-!
# Trailing slashes

Requests whose path doesn't end as it should are redirected to the path that does.
-/

namespace RequestRouting

/-- How paths should end. -/
inductive TrailingSlash where
  /-- With a slash. -/
  | append
  /-- Without a slash. -/
  | remove
  deriving DecidableEq, Repr

/-- Redirection of paths that don't end as they should. -/
structure NormalizePath where
  slash : TrailingSlash := .append
  status : Status := .found
  /-- Whether paths with a file extension are left alone. -/
  skipFiles : Bool := true

namespace NormalizePath

/-- The reference as it should be, unless it's so already. -/
def adjusted? (slash : TrailingSlash) (reference : String) : Option String :=
  match slash, Text.dropTail? "/" reference with
  | .append, none => some (reference ++ "/")
  | .remove, some reference => some reference
  | _, _ => none

/-- The redirection a request is answered with, or nothing if it's handled as it is. -/
def answer? (n : NormalizePath) (req : Request) : Option Response :=
  if req.uri.path = "/" && req.reference = "/" then none
  else if n.skipFiles && (Path.extension? req.uri.path).isSome then none
  else (adjusted? n.slash req.reference).map fun reference =>
    Response.redirect n.status (Uri.ofParts reference req.uri.query).text

end NormalizePath

end RequestRouting
