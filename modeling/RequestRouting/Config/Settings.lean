import RequestRouting.Config.Units
import RequestRouting.Error
import RequestRouting.Files.Path
import RequestRouting.Http.MediaType

/-!
# Settings

The settings of an application. Every section and field has a default.
-/

namespace RequestRouting

namespace Json.Decoder

/-- Reads a value from a number or a text with a unit. Numbers must fit into 64 bits with sign. -/
def quantity (expected : String) (ofNumber : Int → Option α) (ofText : String → Option α) :
    Decoder Error α
  | .int i =>
    match if i < 9223372036854775808 then ofNumber i else none with
    | some x => .ok x
    | none => .error (.flaw (.invalidValue (.int i) expected))
  | .str s =>
    match ofText (Text.trim Text.isBlank s) with
    | some x => .ok x
    | none => .error (.flaw (.invalidValue (.str s) expected))
  | v => mismatch expected v

/-- A number that isn't negative. -/
def natural? (i : Int) : Option Nat := if 0 ≤ i then some i.toNat else none

/-- Reads a time span, a plain number being milliseconds. -/
def duration : Decoder Error Duration :=
  quantity "milliseconds or a duration like `30s`" natural? Units.duration?

/-- Reads a maximum age, a plain number being seconds. -/
def maxAge : Decoder Error MaxAge :=
  quantity "seconds, a duration like `1h` or `farFuture`" some MaxAge.parse?

/-- Reads a size, a plain number being bytes. -/
def size : Decoder Error Nat :=
  quantity "bytes or a size like `4kb`" natural? Units.size?

end Json.Decoder

/-- What an application is called and who is responsible for it. -/
structure Description where
  name : Option String := none
  description : Option String := none
  author : Option String := none
  owner : Option String := none

/-- Where code is found, and how it's named. -/
structure CodeSettings where
  /-- Directories with libraries, relative to the application. -/
  libraries : List String := ["libraries"]
  /-- How long the outcome of looking for a file may be reused. -/
  validity : Duration := 1000
  defaultDocumentName : String := "default"
  defaultExtension : String := "js"
  defaultLanguageTag : String := "javascript"

/-- Where uploads are stored, and from which size on. -/
structure UploadSettings where
  root : String := "uploads"
  sizeThreshold : Nat := 0

/-- Which responses are compressed. -/
structure CompressionSettings where
  sizeThreshold : Nat := 1024
  exclude : List String := []

/-- The settings of an application. -/
structure Settings where
  description : Description := {}
  code : CodeSettings := {}
  uploads : UploadSettings := {}
  compression : CompressionSettings := {}
  /-- Media types by extension, besides the common ones. -/
  mediaTypes : Keyed String String := {}
  logger : Option String := none

namespace Settings

open Json.Decoder

/-- Reads a description. -/
def descriptionDecoder : Json.Decoder Error Description :=
  record "Description"
    [field "name" (optional string) fun x s => { s with name := x },
     field "description" (optional string) fun x s => { s with description := x },
     field "author" (optional string) fun x s => { s with author := x },
     field "owner" (optional string) fun x s => { s with owner := x }]
    {}

/-- Reads code settings. -/
def codeDecoder : Json.Decoder Error CodeSettings :=
  record "Code"
    [field "libraries" (list path) fun x s => { s with libraries := x },
     field "minimumTimeBetweenValidityChecks" duration fun x s => { s with validity := x },
     field "defaultDocumentName" string fun x s => { s with defaultDocumentName := x },
     field "defaultExtension" string fun x s => { s with defaultExtension := x },
     field "defaultLanguageTag" string fun x s => { s with defaultLanguageTag := x }]
    {}

/-- Reads upload settings. -/
def uploadDecoder : Json.Decoder Error UploadSettings :=
  record "Uploads"
    [field "root" path fun x s => { s with root := x },
     field "sizeThreshold" size fun x s => { s with sizeThreshold := x }]
    {}

/-- Reads compression settings. -/
def compressionDecoder : Json.Decoder Error CompressionSettings :=
  record "Compression"
    [field "sizeThreshold" size fun x s => { s with sizeThreshold := x },
     field "exclude" (list string) fun x s => { s with exclude := x }]
    {}

/-- Reads settings. -/
def decoder : Json.Decoder Error Settings :=
  record "Settings"
    [field "description" descriptionDecoder fun x s => { s with description := x },
     field "code" codeDecoder fun x s => { s with code := x },
     field "uploads" uploadDecoder fun x s => { s with uploads := x },
     field "compression" compressionDecoder fun x s => { s with compression := x },
     field "mediaTypes" (keyed string) fun x s => { s with mediaTypes := x },
     field "logger" (optional string) fun x s => { s with logger := x }]
    {}

/-- How long the outcome of looking for a file may be reused. -/
def validity (s : Settings) : Duration := s.code.validity

/-- The common media types, extended by those of the settings. -/
def types (s : Settings) : MediaTypes := MediaTypes.common.putAll s.mediaTypes.entries

/-- The directories with libraries of an application in the given directory. -/
def libraries (s : Settings) (root : String) : List String :=
  s.code.libraries.map (Path.join root)

/-- The name log messages are written under. -/
def loggerName (s : Settings) (application : String) : String := s.logger.getD application

end Settings

end RequestRouting
