import RequestRouting.Keyed
import RequestRouting.Text.Cut

/-!
# Header fields

Requests and responses carry the fields the engine reads or writes, listed in a fixed order. Names
are read in any letter case.
-/

namespace RequestRouting

/-- A header field. -/
inductive Header where
  | contentDisposition
  | contentEncoding
  | contentLanguage
  | contentLength
  | contentType
  | accept
  | acceptCharset
  | acceptEncoding
  | acceptLanguage
  | vary
  | age
  | cacheControl
  | date
  | eTag
  | expires
  | ifModifiedSince
  | ifNoneMatch
  | lastModified
  | pragma
  | authorization
  | wwwAuthenticate
  | accessControlAllowCredentials
  | accessControlAllowHeaders
  | accessControlAllowMethods
  | accessControlAllowOrigin
  | accessControlExposeHeaders
  | accessControlMaxAge
  | accessControlRequestHeaders
  | accessControlRequestMethod
  | origin
  | allow
  | cookie
  | forwarded
  | host
  | location
  | referer
  | setCookie
  | userAgent
  deriving DecidableEq, Repr

namespace Header

/-- All fields, in the order they're listed in. -/
def all : List Header :=
  [contentDisposition, contentEncoding, contentLanguage, contentLength, contentType, accept,
   acceptCharset, acceptEncoding, acceptLanguage, vary, age, cacheControl, date, eTag, expires,
   ifModifiedSince, ifNoneMatch, lastModified, pragma, authorization, wwwAuthenticate,
   accessControlAllowCredentials, accessControlAllowHeaders, accessControlAllowMethods,
   accessControlAllowOrigin, accessControlExposeHeaders, accessControlMaxAge,
   accessControlRequestHeaders, accessControlRequestMethod, origin, allow, cookie, forwarded, host,
   location, referer, setCookie, userAgent]

/-- The name of a field. -/
def name : Header → String
  | contentDisposition => "Content-Disposition"
  | contentEncoding => "Content-Encoding"
  | contentLanguage => "Content-Language"
  | contentLength => "Content-Length"
  | contentType => "Content-Type"
  | accept => "Accept"
  | acceptCharset => "Accept-Charset"
  | acceptEncoding => "Accept-Encoding"
  | acceptLanguage => "Accept-Language"
  | vary => "Vary"
  | age => "Age"
  | cacheControl => "Cache-Control"
  | date => "Date"
  | eTag => "ETag"
  | expires => "Expires"
  | ifModifiedSince => "If-Modified-Since"
  | ifNoneMatch => "If-None-Match"
  | lastModified => "Last-Modified"
  | pragma => "Pragma"
  | authorization => "Authorization"
  | wwwAuthenticate => "WWW-Authenticate"
  | accessControlAllowCredentials => "Access-Control-Allow-Credentials"
  | accessControlAllowHeaders => "Access-Control-Allow-Headers"
  | accessControlAllowMethods => "Access-Control-Allow-Methods"
  | accessControlAllowOrigin => "Access-Control-Allow-Origin"
  | accessControlExposeHeaders => "Access-Control-Expose-Headers"
  | accessControlMaxAge => "Access-Control-Max-Age"
  | accessControlRequestHeaders => "Access-Control-Request-Headers"
  | accessControlRequestMethod => "Access-Control-Request-Method"
  | origin => "Origin"
  | allow => "Allow"
  | cookie => "Cookie"
  | forwarded => "Forwarded"
  | host => "Host"
  | location => "Location"
  | referer => "Referer"
  | setCookie => "Set-Cookie"
  | userAgent => "User-Agent"

/-- The field with the given name in any letter case. -/
def ofName? (name : String) : Option Header :=
  all.find? fun header => Text.sameLetters header.name name

/-- Fields are ordered by their place in the list. -/
def place (header : Header) : Nat := header.ctorIdx

instance : Ord Header := ⟨fun a b => compare a.place b.place⟩

theorem all_place (header : Header) : all[header.place]? = some header := by
  cases header <;> rfl

theorem place_inj {a b : Header} (h : a.place = b.place) : a = b := by
  have ha := all_place a
  rw [h, all_place b] at ha
  exact (Option.some.inj ha).symm

instance : Std.LawfulEqOrd Header where
  eq_of_compare h := place_inj (Nat.compare_eq_eq.mp h)
  compare_self := Nat.compare_eq_eq.mpr rfl

end Header

/-- The values of header fields. -/
abbrev Headers := Keyed Header String

/-- The header fields with their values, one line each. -/
def Headers.text (headers : Headers) : String :=
  String.join (headers.entries.map fun (header, value) => header.name ++ ": " ++ value ++ "\n")

end RequestRouting
