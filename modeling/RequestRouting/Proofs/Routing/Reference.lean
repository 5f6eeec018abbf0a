import RequestRouting.Middleware.BasePath
import RequestRouting.Proofs.Keyed
import RequestRouting.Proofs.Route.Clean
import RequestRouting.Proofs.Route.Matcher
import RequestRouting.Routing.Router

/-!
# Moving text from the path to the base

Mount points and prefix routes take a piece of text off the path of a request and append it to its
base. The reference of a request is its base without trailing slashes followed by its path, so it
stays the same as long as the piece doesn't end in a slash, which would be trimmed.
-/

namespace RequestRouting

namespace Request

/-- The base of a request, which is empty unless a mount point was stripped. -/
def base (req : Request) : String := (req.attributes.get? Attribute.base).getD ""

theorem reference_eq (req : Request) :
    req.reference = Text.trimTail (· = '/') req.base ++ req.uri.path := by
  unfold reference base
  cases req.attributes.get? Attribute.base with
  | none => simp
  | some base =>
    by_cases h : base = ""
    · simp [h]
    · simp [h]

/-- Whether two requests differ in nothing but their attributes, and in where their reference is
split into base and path. -/
structure SameParts (a b : Request) : Prop where
  reference : a.reference = b.reference
  method : a.method = b.method
  query : a.uri.query = b.uri.query
  headers : a.headers = b.headers
  body : a.body = b.body

theorem SameParts.refl (req : Request) : SameParts req req := ⟨rfl, rfl, rfl, rfl, rfl⟩

theorem SameParts.symm {a b : Request} (h : SameParts a b) : SameParts b a :=
  ⟨h.reference.symm, h.method.symm, h.query.symm, h.headers.symm, h.body.symm⟩

theorem SameParts.trans {a b c : Request} (h : SameParts a b) (h' : SameParts b c) :
    SameParts a c :=
  ⟨h.reference.trans h'.reference, h.method.trans h'.method, h.query.trans h'.query,
    h.headers.trans h'.headers, h.body.trans h'.body⟩

/-- Attributes other than the base don't count. -/
theorem sameParts_setAll (req : Request) {values : List (String × String)}
    (h : Attribute.base ∉ values.map (·.1)) : SameParts req (req.setAll values) := by
  refine ⟨?_, rfl, rfl, rfl, rfl⟩
  simp only [reference_eq, base, setAll, Keyed.get?_insertMany_of_not_mem _ h]

/-- A piece of the path that doesn't end in a slash moves to the base. -/
theorem sameParts_move (req : Request) {piece rest : String} (hp : req.uri.path = piece ++ rest)
    (hn : piece ≠ "") (ht : Text.trimTail (· = '/') piece = piece) :
    SameParts req (Request.set { req with uri.path := rest } Attribute.base
      (Text.trimTail (· = '/') req.base ++ piece)) := by
  refine ⟨?_, rfl, rfl, rfl, rfl⟩
  rw [reference_eq, reference_eq]
  simp only [base, set, Keyed.get?_insert_self, Option.getD_some,
    Text.trimTail_append _ hn ht, hp, String.append_assoc]

end Request

open Request

/-- Stripping a mount point where something follows it keeps the reference. -/
theorem BasePath.sameParts_apply (b : BasePath) (req : Request)
    (ht : Text.trimTail (· = '/') b.base = b.base) (hp : req.uri.path ≠ b.base) :
    SameParts req (b.apply req) := by
  unfold apply
  split
  · exact .refl req
  · rename_i hn
    have hn' : b.base ≠ "" := fun he => hn (by simp [he])
    split
    · exact .refl req
    · rename_i rest hr
      have hpath := Text.dropLead?_eq_some.mp hr
      have hrest : rest ≠ "" := by
        rintro rfl
        exact hp (by simpa using hpath)
      split
      · have hm := sameParts_move req hpath hn' ht
        simp only [String.isEmpty_iff, hrest, if_false]
        unfold Request.base at hm
        cases hb : req.attributes.get? Attribute.base with
        | none => simpa [hb] using hm
        | some prior => simpa [hb] using hm
      · exact .refl req

namespace Router

/-- Descending below a prefix without doubled slashes keeps the reference. -/
theorem sameParts_descend (req : Request) {lead remainder : String}
    (hp : req.uri.path = lead ++ remainder) (hs : Spaced '/' lead.toList) :
    SameParts req (descend req remainder) := by
  have hd : Text.dropTail? remainder req.uri.path = some lead := Text.dropTail?_eq_some.mpr hp
  simp only [descend, hd]
  -- Either way the path is the piece that moves to the base, followed by the rest.
  have key : ∀ piece rest : String, req.uri.path = piece ++ rest →
      (∀ c, piece.toList.getLast? = some c → decide (c = '/') = false) →
      SameParts req (if rest.isEmpty || Text.startsWith "/" rest then
        { (if piece.isEmpty then req else req.set Attribute.base
          (Text.trimTail (· = '/') req.base ++ piece)) with uri.path := rest } else req) := by
    intro piece rest hpath hlast
    split
    · by_cases hn : piece = ""
      · subst hn
        rw [String.empty_append] at hpath
        simp [← hpath, SameParts.refl]
      · rw [if_neg (by simpa using hn)]
        exact sameParts_move req hpath hn (Text.trimTail_eq_self hlast)
    · exact .refl req
  cases ht : Text.dropTail? "/" lead with
  | some piece =>
    have hl := Text.dropTail?_eq_some.mp ht
    refine key piece ("/" ++ remainder) (by rw [hp, hl, String.append_assoc]) ?_
    intro c hc
    rw [hl, String.toList_append] at hs
    have := hs.getLast?_ne
    simpa using fun he : c = '/' => this (he ▸ hc)
  | none =>
    refine key lead remainder hp ?_
    intro c hc
    simp only [decide_eq_false_iff_not]
    rintro rfl
    obtain ⟨l, hl⟩ := List.getLast?_eq_some_iff.mp hc
    exact Text.dropTail?_eq_none.mp ht (.ofList l) (String.ext (by simpa using hl))

end Router

end RequestRouting
