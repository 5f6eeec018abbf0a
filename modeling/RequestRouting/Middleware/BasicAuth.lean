import RequestRouting.Http.Message
import RequestRouting.Text.Base64
import RequestRouting.Text.Utf8

/-!
# Basic authentication

Requests are only let through with the name and password of a known user.
-/

namespace RequestRouting

/-- Passwords by user name, and the realm they're valid in. -/
structure BasicAuth where
  credentials : Keyed String String := {}
  realm : String

namespace BasicAuth

/-- The name and password given by the value of the header field: the word `Basic` in any letter
case, and the encoded form of the name and the password with a colon between them. -/
def given? (value : String) : Option (String × String) := do
  let (scheme, encoded) ← Text.cut? ' ' (Text.trim Text.isBlank value)
  guard (Text.sameLetters scheme "basic")
  let bytes ← Text.Base64.decode? (Text.trim Text.isBlank encoded).toList
  let text ← Text.Utf8.decode? bytes
  Text.cut? ':' (.ofList text)

/-- The name of the user who sent a request, if the password is right. -/
def user? (a : BasicAuth) (req : Request) : Option String := do
  let (user, password) ← given? (← req.headers.get? .authorization)
  let expected ← a.credentials.get? user
  guard (expected = password)
  some user

/-- The response that asks for a name and a password. -/
def challenge (a : BasicAuth) : Response :=
  (Response.ofStatus .unauthorized).header .wwwAuthenticate ("Basic realm=\"" ++ a.realm ++ "\"")

/-- The request with the name of its user, or the challenge. -/
def authenticate (a : BasicAuth) (req : Request) : Except Response Request :=
  match a.user? req with
  | some user => .ok (req.set Attribute.user user)
  | none => .error a.challenge

end BasicAuth

end RequestRouting
