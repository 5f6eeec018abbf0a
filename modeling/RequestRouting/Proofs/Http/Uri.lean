import RequestRouting.Http.Uri
import RequestRouting.Proofs.Text.Cut
import RequestRouting.Proofs.Text.Utf8

/-!
# Texts that are their own path

Reading a URI takes away a query and decodes escapes. A text with neither is the path it's read as.
-/

namespace RequestRouting

/-- Bytes without a percent sign stand for themselves. -/
theorem Text.Percent.decode_eq_self {bytes : List UInt8} (h : 0x25 ∉ bytes) :
    decode bytes = bytes := by
  induction bytes with
  | nil => rfl
  | cons b rest ih =>
    rw [List.mem_cons, not_or] at h
    rw [decode]
    · rw [ih h.2]
    · rintro _ _ _ rfl
      exact absurd rfl h.1

namespace Uri

theorem decode_eq_self {text : String} (h : '%' ∉ text.toList) : decode text = text := by
  have hb : (0x25 : UInt8) ∉ Text.Utf8.encode text.toList := by
    intro hb
    obtain ⟨c, hc, he⟩ := List.mem_flatMap.mp hb
    have hp : c = '%' := Text.Utf8.eq_of_mem_encodeChar (by decide) he
    exact h (hp ▸ hc)
  rw [decode, Text.Percent.decode_eq_self hb, Text.Utf8.decodeLenient_encode, String.ofList_toList]

/-- A text without query and escapes is its own path. -/
theorem path_parse {text : String} (hq : '?' ∉ text.toList) (hp : '%' ∉ text.toList) :
    (parse text).path = text := by
  rw [parse, Text.cut?, Text.Chars.cut?_eq_none hq, Option.map_none]
  exact decode_eq_self hp

end Uri

end RequestRouting
