import RequestRouting.Proofs.Http.Escapes
import RequestRouting.Proofs.Routing.Forwarding

/-!
# What captures substitute

The values of variables are substituted as they are, but what a template expands to is then read as
a URI. So a request isn't always captured to the path that is written there: a question mark in a
value ends the path and starts a query, and what looks like an escape, in a value or across its
borders, is decoded.
-/

namespace RequestRouting

namespace Uri

variable {text path query : String}

theorem parse_of_cut? (h : Text.cut? '?' text = some (path, query)) :
    parse text = ofParts (decode path) (some query) := by
  rw [parse, h]

theorem parse_of_not_mem (h : '?' ∉ text.toList) : parse text = ⟨decode text, none⟩ := by
  rw [parse, Text.cut?, Text.Chars.cut?_eq_none h]
  rfl

/-- The texts that are their own path are those without query and escapes. -/
theorem path_parse_eq_iff (text : String) :
    (parse text).path = text ↔ '?' ∉ text.toList ∧ ¬HasEscape text := by
  cases hc : Text.cut? '?' text with
  | none =>
    have hn : '?' ∉ text.toList := Text.Chars.not_mem_of_cut? (Option.map_eq_none_iff.mp hc)
    rw [parse_of_not_mem hn, decode_eq_self_iff]
    exact (and_iff_right hn).symm
  | some p =>
    obtain ⟨path, query⟩ := p
    have ht := Text.toList_of_cut? hc
    rw [parse_of_cut? hc]
    constructor
    · intro he
      -- The path is shorter than the text, and decoding doesn't make it longer.
      have hl := (length_decode path).1
      have hd : decode path = text := he
      rw [hd, ht] at hl
      simp only [List.length_append, List.length_cons] at hl
      omega
    · rintro ⟨hn, -⟩
      exact absurd (by simp [ht]) hn

end Uri

/-- The characters that a template expands to are those of its literals and of its values. -/
theorem Template.mem_expand {t : Template} {req : Request} {c : Char} :
    c ∈ (t.expand req).toList ↔ (∃ text, .literal text ∈ t.parts ∧ c ∈ text) ∨
      ∃ name, .variable name ∈ t.parts ∧ c ∈ (value req (.ofList name)).toList := by
  rw [expand, String.toList_ofList, List.mem_flatMap]
  constructor
  · rintro ⟨part, hp, hc⟩
    rcases part with text | name
    · exact Or.inl ⟨text, hp, hc⟩
    · exact Or.inr ⟨name, hp, hc⟩
  · rintro (⟨text, hp, hc⟩ | ⟨name, hp, hc⟩)
    · exact ⟨_, hp, hc⟩
    · exact ⟨_, hp, hc⟩

namespace Capture

variable {c : Capture} {req req' : Request}

/-- The URI of a captured request is what the template expands to, with the query of the request
unless there is another one. -/
theorem uri_of_forward? (h : c.forward? req = some req') :
    req'.uri = Uri.ofParts (Uri.parse (c.uri.expand req)).path
      ((Uri.parse (c.uri.expand req)).query <|> req.uri.query) := by
  have hf : (Forwarder.capture c 0).forward? req = some req' := h
  have hu : ((Forwarder.capture c 0).prepared req).uri = req.uri := by
    simp only [Forwarder.prepared]
    split <;> rfl
  rw [Forwarder.forward?_eq_captured?, Request.captured?_eq] at hf
  split at hf
  · cases hf
  · obtain rfl := Option.some.inj hf
    rw [Request.uri_capturedTo, hu]
    rfl

/-- If the literals of its template have no question marks, a capture leads to what the template
expands to exactly if no value has a question mark and there are no escapes in it, and then the
query is that of the request. If a value has a question mark, what stands before the first one is
decoded to the path, and what stands behind it takes the place of the query. -/
theorem path_forward?_iff (hf : c.forward? req = some req')
    (hl : ∀ text, .literal text ∈ c.uri.parts → '?' ∉ text) :
    (req'.uri.path = c.uri.expand req ↔
      (∀ name, .variable name ∈ c.uri.parts →
        '?' ∉ (Template.value req (.ofList name)).toList) ∧ ¬Uri.HasEscape (c.uri.expand req)) ∧
    ((∀ name, .variable name ∈ c.uri.parts →
        '?' ∉ (Template.value req (.ofList name)).toList) →
      req'.uri = Uri.ofParts (Uri.decode (c.uri.expand req)) req.uri.query) ∧
    ∀ before after, Text.cut? '?' (c.uri.expand req) = some (before, after) →
      req'.uri = Uri.ofParts (Uri.decode before)
        (if after.isEmpty then req.uri.query else some after) := by
  have huri := uri_of_forward? hf
  have hmark : '?' ∉ (c.uri.expand req).toList ↔ ∀ name, .variable name ∈ c.uri.parts →
      '?' ∉ (Template.value req (.ofList name)).toList := by
    rw [Template.mem_expand, not_or]
    constructor
    · exact fun hn name hv hc => hn.2 ⟨name, hv, hc⟩
    · rintro hn
      refine ⟨?_, ?_⟩
      · rintro ⟨text, ht, hc⟩
        exact hl text ht hc
      · rintro ⟨name, hv, hc⟩
        exact hn name hv hc
  refine ⟨?_, ?_, ?_⟩
  · rw [← hmark, ← Uri.path_parse_eq_iff, huri]
    exact Iff.rfl
  · intro hn
    rw [huri, Uri.parse_of_not_mem (hmark.mpr hn)]
    rfl
  · intro before after hc
    rw [huri, Uri.parse_of_cut? hc]
    cases he : after.isEmpty <;> simp [Uri.ofParts, Option.filter_some, he]

/-- A capture to another path, with all that's left of the path behind it. -/
def toNew : Capture := .ofUri "/new/\x7brr\x7d"

/-- A request with a query, and with what's left of its path. -/
def restRequest (rest : String) : Request where
  uri := ⟨"/old/" ++ rest, some "y=2"⟩
  attributes := ⟨[("rr", rest)]⟩

theorem parts_toNew : toNew.uri.parts = [.literal "/new/".toList, .variable "rr".toList] := by
  simp [toNew, ofUri, Template.parse, Template.split, Template.push, Text.Chars.cut?]

/-- The capture substitutes what's left of the path. -/
theorem expand_toNew (rest : String) : toNew.uri.expand (restRequest rest) = "/new/" ++ rest := by
  have hv : Template.value (restRequest rest) (.ofList "rr".toList) = rest := rfl
  refine String.ext ?_
  rw [Template.expand, parts_toNew, String.toList_ofList, String.toList_append]
  simp only [List.flatMap_cons, List.flatMap_nil, Template.Part.expand, hv, List.append_nil]

theorem not_mem_toNew (text : List Char) (h : .literal text ∈ toNew.uri.parts) :
    '?' ∉ text ∧ '%' ∉ text := by
  simp only [parts_toNew, List.mem_cons, List.not_mem_nil, or_false, reduceCtorEq,
    Template.Part.literal.injEq] at h
  subst h
  decide

theorem exists_forward?_toNew (rest : String) :
    ∃ req', toNew.forward? (restRequest rest) = some req' := by
  have hf := (Forwarder.capture toNew 0).forward?_eq (restRequest rest) (by decide)
  have hh : Text.lines (restRequest rest).history = [] := rfl
  rw [hh, if_neg List.not_mem_nil] at hf
  exact ⟨_, hf⟩

/-- A path with spaces, percent signs and slashes is substituted as it is, and the query is kept. -/
theorem path_forward?_iff_toNew : ∃ req', toNew.forward? (restRequest "100% a//b") = some req' ∧
    (∀ text, .literal text ∈ toNew.uri.parts → '?' ∉ text) ∧
    req'.uri = ⟨"/new/100% a//b", some "y=2"⟩ := by
  obtain ⟨req', hf⟩ := exists_forward?_toNew "100% a//b"
  have hl : ∀ text, .literal text ∈ toNew.uri.parts → '?' ∉ text :=
    fun text ht => (not_mem_toNew text ht).1
  have hv : ∀ name, .variable name ∈ toNew.uri.parts →
      '?' ∉ (Template.value (restRequest "100% a//b") (.ofList name)).toList := by
    intro name hn
    rw [parts_toNew] at hn
    simp only [List.mem_cons, List.not_mem_nil, or_false, reduceCtorEq, false_or,
      Template.Part.variable.injEq] at hn
    subst hn
    have hv : Template.value (restRequest "100% a//b") (.ofList "rr".toList) = "100% a//b" := rfl
    rw [hv]
    decide
  have hd : Uri.decode ("/new/" ++ "100% a//b") = "/new/" ++ "100% a//b" :=
    (Uri.decode_eq_self_iff _).mpr (by decide)
  obtain ⟨-, hplain, -⟩ := path_forward?_iff hf hl
  refine ⟨req', hf, hl, ?_⟩
  rw [hplain hv, expand_toNew, hd]
  rfl

/-- A percent sign and two digits that were requested as such are taken for an escape: the value
`a%41` isn't substituted as it is. -/
theorem not_substitutes_verbatim : ¬∀ (c : Capture) (req req' : Request),
    (∀ text, .literal text ∈ c.uri.parts → '?' ∉ text ∧ '%' ∉ text) →
    c.forward? req = some req' →
    req'.uri.path = c.uri.expand req ∧ req'.uri.query = req.uri.query := by
  intro hclaim
  obtain ⟨req', hf⟩ := exists_forward?_toNew "a%41"
  have hescape : Uri.HasEscape ("/new/" ++ "a%41") := by decide
  obtain ⟨hsame, -⟩ := hclaim toNew (restRequest "a%41") req' not_mem_toNew hf
  have hself : (Uri.parse ("/new/" ++ "a%41")).path = "/new/" ++ "a%41" := by
    rw [uri_of_forward? hf, expand_toNew] at hsame
    exact hsame
  exact ((Uri.path_parse_eq_iff _).mp hself).2 hescape

end Capture

end RequestRouting
