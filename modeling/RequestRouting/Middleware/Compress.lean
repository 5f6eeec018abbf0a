import RequestRouting.Decimal.Weight
import RequestRouting.Gzip.Frame
import RequestRouting.Http.MediaType
import RequestRouting.Http.Message

/-!
# Compression

Successful responses of at least a given size are encoded with gzip if the client accepts it, unless
they are encoded already or their media type is excluded.
-/

namespace RequestRouting

/-- Which responses are compressed. -/
structure Compress where
  /-- The least size of a body in bytes. -/
  threshold : Nat
  /-- Patterns of media types that aren't compressed. -/
  exclude : List String := []

namespace Compress

/-- Media types that are compressed already. -/
def compressed : List String :=
  ["image/*", "video/*", "audio/*", "font/woff", "font/woff2", "application/zip",
   "application/gzip"]

/-- Whether a coding with its parameters names gzip, or any coding, without refusing it by its
weight. -/
def tokenAccepts (token : String) : Bool :=
  match (Text.pieces ';' token).map (Text.trim Text.isBlank) with
  | [] => false
  | name :: params =>
    (Text.sameLetters name "gzip" || name = "*") &&
      !params.any fun param => ((Text.dropLead? "q=" param).map Decimal.isZeroOrLess).getD false

/-- Whether a list of accepted codings has one that stands for gzip. -/
def accepts (codings : String) : Bool := (Text.pieces ',' codings).any tokenAccepts

/-- Whether a request accepts gzip. -/
def isAccepted (req : Request) : Bool :=
  ((req.headers.get? .acceptEncoding).map accepts).getD false

/-- Whether a response may be compressed. -/
def isEligible (c : Compress) (res : Response) : Bool :=
  res.status.isSuccess && max c.threshold 1 ≤ res.body.size &&
    !res.headers.contains .contentEncoding &&
    !(compressed ++ c.exclude).any fun pattern =>
      MediaType.isMatch pattern (res.mediaType?.getD "")

/-- A response with its body encoded. -/
def encode (res : Response) : Response :=
  let body := Gzip.encode res.body
  let vary := match res.headers.get? .vary with
    | some vary => vary ++ ", Accept-Encoding"
    | none => "Accept-Encoding"
  { (((res.header .contentEncoding "gzip").header .contentLength (toString body.size)).header
      .vary vary) with body }

/-- The response to a request that another response was given to. -/
def apply (c : Compress) (req : Request) (res : Response) : Response :=
  if isAccepted req && c.isEligible res then encode res else res

end Compress

end RequestRouting
