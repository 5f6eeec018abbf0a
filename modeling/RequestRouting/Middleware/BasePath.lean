import RequestRouting.Http.Message
import RequestRouting.Route.Matcher

/-!
# Mount points

A mount point is stripped from the path of a request and recorded as its base, so handlers see paths
relative to it. It's only stripped where a segment of the path ends.
-/

namespace RequestRouting

/-- A mount point, without a slash at its end. -/
structure BasePath where
  base : String

namespace BasePath

/-- The mount point with the given path, which must be that of a route. -/
def ofPath (path : String) : Except MatcherError BasePath :=
  match Route.ofPath path .startsWith with
  | .ok route => .ok ⟨Text.trimTail (· = '/') route.path⟩
  | .error error => .error (.route error)

/-- The request as handlers below the mount point see it. -/
def apply (b : BasePath) (req : Request) : Request :=
  if b.base.isEmpty then req
  else match Text.dropLead? b.base req.uri.path with
    | none => req
    | some rest =>
      if rest.isEmpty || Text.startsWith "/" rest then
        let base := match req.attributes.get? Attribute.base with
          | some prior => Text.trimTail (· = '/') prior ++ b.base
          | none => b.base
        { req with uri.path := if rest.isEmpty then "/" else rest }.set Attribute.base base
      else req

end BasePath

end RequestRouting
