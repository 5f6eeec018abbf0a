import RequestRouting.Http.MediaType
import RequestRouting.Proofs.Text.Cut
import RequestRouting.Proofs.Text.Letters

/-!
# What a pattern covers

A media type is compared without its parameters, the blanks around it and the case of its letters. A
pattern covers the media type it names, those with any subtype where it has a star for that, and all
of them if it's nothing but stars.
-/

namespace RequestRouting.MediaType

open Text

/-- Whether a media type is one without parameters that has blanks around it, or parameters behind
it, which are set off by a semicolon. -/
def IsBare (bare mediaType : String) : Prop :=
  ';' ∉ bare.toList ∧ Chars.trim isBlank bare.toList = bare.toList ∧
    ∃ lead tail parameters : List Char,
      mediaType.toList = lead ++ bare.toList ++ tail ++ parameters ∧
      (∀ c ∈ lead ++ tail, isBlank c = true) ∧ ∀ c, parameters.head? = some c → c = ';'

/-- Whether a pattern covers a media type, both of them without parameters. -/
inductive Covers : String → String → Prop where
  | star (mediaType : String) : Covers "*" mediaType
  | stars (mediaType : String) : Covers "*/*" mediaType
  | subtypes {kind other : String} (hk : '/' ∉ kind.toList) (ho : '/' ∉ other.toList)
      (h : lower kind = lower other) (subtype : String) :
      Covers (kind ++ "/" ++ "*") (other ++ "/" ++ subtype)
  | same {pattern mediaType : String} (h : lower pattern = lower mediaType) :
      Covers pattern mediaType

variable {bare pattern mediaType kind other subtype : String}

end RequestRouting.MediaType
