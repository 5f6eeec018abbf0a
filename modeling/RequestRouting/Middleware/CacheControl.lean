import RequestRouting.Files.Tree
import RequestRouting.Http.MediaType
import RequestRouting.Http.Message

/-!
# Client caching

Successful responses get header fields that allow or forbid clients to cache them, by media type.
-/

namespace RequestRouting

/-- Maximum ages by pattern of the media type, the first one that matches being the one that
counts. -/
structure CacheControl where
  rules : List (String × MaxAge) := []
  /-- The age for media types no pattern matches. -/
  default : MaxAge := MaxAge.unset

namespace CacheControl

/-- The maximum age for a media type. -/
def maxAge (c : CacheControl) (mediaType : Option String) : MaxAge :=
  match mediaType.bind fun type => c.rules.find? fun (pattern, _) => MediaType.isMatch pattern type with
  | some (_, age) => age
  | none => c.default

/-- A response that clients must not cache for longer than the given age. Ages beyond ten years
count as ten years. -/
def stamp (age : MaxAge) (now : Time) (res : Response) : Response :=
  if age < 0 then res
  else if age = 0 then
    (res.header .cacheControl "no-cache").header .expires (Time.text 0)
  else
    let seconds := (min age MaxAge.farFuture).toNat
    (res.header .cacheControl ("max-age=" ++ toString seconds)).header .expires
      (Time.text (now + seconds * Time.second))

/-- The response with header fields for client caching. -/
def apply (c : CacheControl) (now : Time) (res : Response) : Response :=
  if res.status.isSuccess then stamp (c.maxAge res.mediaType?) now res else res

end CacheControl

end RequestRouting
