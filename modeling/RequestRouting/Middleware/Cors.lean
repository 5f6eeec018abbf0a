import RequestRouting.Config.Descriptor
import RequestRouting.Http.Message

/-!
# Requests from other origins

Responses get header fields that tell browsers which requests from other origins are allowed.
-/

namespace RequestRouting

/-- Header fields for requests from other origins. -/
structure Cors where
  headers : List (Header × String)

namespace Cors

/-- The header fields for a configuration. -/
def ofNode {δ : Type} (node : CorsNode δ) : Cors where
  headers :=
    (node.allowOrigin.toList.map fun origin => (.accessControlAllowOrigin, origin)) ++
    (if node.allowMethods.isEmpty then []
      else [(.accessControlAllowMethods, Text.join ", " node.allowMethods)]) ++
    (if node.allowHeaders.isEmpty then []
      else [(.accessControlAllowHeaders, Text.join ", " node.allowHeaders)]) ++
    (if 0 < node.maxAge then [(.accessControlMaxAge, toString node.maxAge)] else [])

/-- The response with all header fields. -/
def apply (c : Cors) (res : Response) : Response :=
  { res with headers := res.headers.insertMany c.headers }

end Cors

end RequestRouting
