import RequestRouting.Text.Cut
import RequestRouting.Text.Percent

/-!
# Request URIs

The path of a URI is kept decoded, as routing works on decoded paths, while the query is kept as it
was sent. Writing escapes every character that reading would take for something else.
-/

namespace RequestRouting

/-- A request URI, with its path decoded. -/
structure Uri where
  path : String := "/"
  query : Option String := none
  deriving DecidableEq, Repr

namespace Uri

/-- Creates a URI from its parts. An empty query is no query. -/
def ofParts (path : String) (query : Option String) : Uri :=
  ⟨path, query.filter (!·.isEmpty)⟩

/-- Decodes the escapes in a text. Bytes that aren't UTF-8 become replacement characters. -/
def decode (text : String) : String :=
  .ofList (Text.Utf8.decodeLenient (Text.Percent.decode (Text.Utf8.encode text.toList)))

/-- Reads a URI: a path, which is decoded, and a query after the first question mark. -/
def parse (text : String) : Uri :=
  match Text.cut? '?' text with
  | some (path, query) => ofParts (decode path) (some query)
  | none => ofParts (decode text) none

/-- The bytes written as escapes: control characters, everything beyond ASCII, and characters that
delimit a path or aren't allowed in it. -/
def isEscaped (b : UInt8) : Bool :=
  b < 0x20 || 0x7F ≤ b || b == 0x20 || b == 0x22 || b == 0x23 || b == 0x25 || b == 0x3C ||
    b == 0x3E || b == 0x3F || b == 0x60 || b == 0x7B || b == 0x7D

/-- Encodes a path. -/
def encode (path : String) : String :=
  .ofList ((Text.Percent.encode isEscaped (Text.Utf8.encode path.toList)).map
    fun b => .ofNat b.toNat)

/-- The text of a URI. -/
def text (uri : Uri) : String :=
  encode uri.path ++
    match uri.query with
    | some query => "?" ++ query
    | none => ""

end Uri

end RequestRouting
