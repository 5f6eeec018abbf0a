import RequestRouting.Keyed
import RequestRouting.Files.Path
import RequestRouting.Text.Cut

/-!
# Media types

Media types are compared without their parameters and without regard to letter case. A pattern may
leave the subtype open, or match everything.
-/

namespace RequestRouting

namespace MediaType

/-- The media type of content nothing else is known of. -/
def octetStream : String := "application/octet-stream"

/-- A media type without its parameters. -/
def essence (mediaType : String) : String :=
  Text.trim Text.isBlank ((Text.cut? ';' mediaType).elim mediaType (·.1))

/-- Whether a media type matches a pattern. -/
def isMatch (pattern mediaType : String) : Bool :=
  let pattern := essence pattern
  let mediaType := essence mediaType
  if pattern = "*/*" || pattern = "*" then true
  else match Text.cut? '/' pattern, Text.cut? '/' mediaType with
    | some (kind, "*"), some (other, _) => Text.sameLetters kind other
    | _, _ => Text.sameLetters pattern mediaType

end MediaType

/-- The media types of file extensions, in lower case. -/
abbrev MediaTypes := Keyed String String

namespace MediaTypes

/-- The media types of common extensions. -/
def common : MediaTypes := .ofList
  [("css", "text/css"),
   ("csv", "text/csv"),
   ("gif", "image/gif"),
   ("htm", "text/html; charset=utf-8"),
   ("html", "text/html; charset=utf-8"),
   ("ico", "image/x-icon"),
   ("jpeg", "image/jpeg"),
   ("jpg", "image/jpeg"),
   ("js", "application/javascript"),
   ("json", "application/json"),
   ("less", "text/css"),
   ("map", "application/json"),
   ("mp4", "video/mp4"),
   ("pdf", "application/pdf"),
   ("png", "image/png"),
   ("svg", "image/svg+xml"),
   ("txt", "text/plain; charset=utf-8"),
   ("wasm", "application/wasm"),
   ("webp", "image/webp"),
   ("woff", "font/woff"),
   ("woff2", "font/woff2"),
   ("xml", "application/xml"),
   ("zip", "application/zip")]

/-- The key of an extension: without leading dots, in lower case. -/
def key (extension : String) : String := Text.lower (Text.trimLead (· = '.') extension)

/-- Sets the media type of an extension. -/
def put (types : MediaTypes) (extension mediaType : String) : MediaTypes :=
  types.insert (key extension) mediaType

/-- Sets the media types of several extensions, one after another. -/
def putAll (types : MediaTypes) (entries : List (String × String)) : MediaTypes :=
  entries.foldl (fun types (extension, mediaType) => types.put extension mediaType) types

/-- The media type of an extension. -/
def ofExtension? (types : MediaTypes) (extension : String) : Option String :=
  types.get? (Text.lower extension)

/-- The media type of a file. -/
def forPath (types : MediaTypes) (path : String) : String :=
  ((Path.extension? path).bind types.ofExtension?).getD MediaType.octetStream

end MediaTypes

end RequestRouting
