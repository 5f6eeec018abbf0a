/-!
# Response statuses
-/

namespace RequestRouting

/-- A response status. -/
inductive Status where
  | continue
  | switchingProtocols
  | ok
  | created
  | accepted
  | noContent
  | partialContent
  | multipleChoices
  | movedPermanently
  | found
  | seeOther
  | notModified
  | temporaryRedirect
  | permanentRedirect
  | badRequest
  | unauthorized
  | forbidden
  | notFound
  | methodNotAllowed
  | notAcceptable
  | conflict
  | gone
  | payloadTooLarge
  | uriTooLong
  | unsupportedMediaType
  | imATeapot
  | unprocessableEntity
  | tooManyRequests
  | internalServerError
  | notImplemented
  | badGateway
  | serviceUnavailable
  | gatewayTimeout
  | loopDetected
  deriving DecidableEq, Repr

namespace Status

/-- All statuses. -/
def all : List Status :=
  [.continue, switchingProtocols, ok, created, accepted, noContent, partialContent,
   multipleChoices, movedPermanently, found, seeOther, notModified, temporaryRedirect,
   permanentRedirect, badRequest, unauthorized, forbidden, notFound, methodNotAllowed,
   notAcceptable, conflict, gone, payloadTooLarge, uriTooLong, unsupportedMediaType, imATeapot,
   unprocessableEntity, tooManyRequests, internalServerError, notImplemented, badGateway,
   serviceUnavailable, gatewayTimeout, loopDetected]

/-- The number of a status. -/
def code : Status → Nat
  | .continue => 100
  | switchingProtocols => 101
  | ok => 200
  | created => 201
  | accepted => 202
  | noContent => 204
  | partialContent => 206
  | multipleChoices => 300
  | movedPermanently => 301
  | found => 302
  | seeOther => 303
  | notModified => 304
  | temporaryRedirect => 307
  | permanentRedirect => 308
  | badRequest => 400
  | unauthorized => 401
  | forbidden => 403
  | notFound => 404
  | methodNotAllowed => 405
  | notAcceptable => 406
  | conflict => 409
  | gone => 410
  | payloadTooLarge => 413
  | uriTooLong => 414
  | unsupportedMediaType => 415
  | imATeapot => 418
  | unprocessableEntity => 422
  | tooManyRequests => 429
  | internalServerError => 500
  | notImplemented => 501
  | badGateway => 502
  | serviceUnavailable => 503
  | gatewayTimeout => 504
  | loopDetected => 508

/-- The reason phrase of a status. -/
def reason : Status → String
  | .continue => "Continue"
  | switchingProtocols => "Switching Protocols"
  | ok => "OK"
  | created => "Created"
  | accepted => "Accepted"
  | noContent => "No Content"
  | partialContent => "Partial Content"
  | multipleChoices => "Multiple Choices"
  | movedPermanently => "Moved Permanently"
  | found => "Found"
  | seeOther => "See Other"
  | notModified => "Not Modified"
  | temporaryRedirect => "Temporary Redirect"
  | permanentRedirect => "Permanent Redirect"
  | badRequest => "Bad Request"
  | unauthorized => "Unauthorized"
  | forbidden => "Forbidden"
  | notFound => "Not Found"
  | methodNotAllowed => "Method Not Allowed"
  | notAcceptable => "Not Acceptable"
  | conflict => "Conflict"
  | gone => "Gone"
  | payloadTooLarge => "Payload Too Large"
  | uriTooLong => "URI Too Long"
  | unsupportedMediaType => "Unsupported Media Type"
  | imATeapot => "I'm a Teapot"
  | unprocessableEntity => "Unprocessable Entity"
  | tooManyRequests => "Too Many Requests"
  | internalServerError => "Internal Server Error"
  | notImplemented => "Not Implemented"
  | badGateway => "Bad Gateway"
  | serviceUnavailable => "Service Unavailable"
  | gatewayTimeout => "Gateway Timeout"
  | loopDetected => "Loop Detected"

/-- The status with the given number. -/
def ofCode? (code : Nat) : Option Status := all.find? fun status => status.code = code

theorem ofCode?_code (status : Status) : ofCode? status.code = some status := by
  cases status <;> rfl

/-- Whether the status signals success. -/
def isSuccess (status : Status) : Bool := 200 ≤ status.code && status.code ≤ 299

/-- Whether the status signals a redirection. -/
def isRedirection (status : Status) : Bool := 300 ≤ status.code && status.code ≤ 399

/-- Whether the status signals an error of the server. -/
def isServerError (status : Status) : Bool := 500 ≤ status.code

/-- The number and the reason phrase. -/
def text (status : Status) : String := toString status.code ++ " " ++ status.reason

end Status

end RequestRouting
