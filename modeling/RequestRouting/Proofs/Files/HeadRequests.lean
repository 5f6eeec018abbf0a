import RequestRouting.Proofs.Files.Answers
import RequestRouting.Proofs.Serving

/-!
# Static files without their content

A client that asks for the header fields only is answered like one that asks for a file, but without
the content. Whether there's an answer doesn't depend on that, and neither do the status and the
header fields. A listing is sent anyway.
-/

namespace RequestRouting

theorem Listing.toUTF8_page_ne_empty (reference : String) (labels : List String) :
    (page reference labels).toUTF8 ≠ .empty := by
  intro h
  have hsize := congrArg ByteArray.size h
  unfold page at hsize
  simp at hsize

namespace StaticFiles

variable {s : StaticFiles} {req : Request} {w : World}

/-- Static files are served from the files there are, and nothing is changed by that. -/
theorem serve_eq (jump : Jump) (next : Request → Serving Response)
    (hm : req.method = .get ∨ req.method = .head) :
    Middleware.serve jump next req (.staticFiles s) w =
      match s.respond w.now req (s.found w.files req.uri.path) with
      | some res => some (res, w)
      | none => next req w := by
  simp only [Middleware.serve, Serving.bind_apply, Serving.get_apply, Option.bind_some,
    answer?_eq hm]
  cases s.respond w.now req (s.found w.files req.uri.path) <;> rfl

/-- Nothing but content is left out of an answer, and all of it but for listings. -/
theorem exists_respond_head (s : StaticFiles) (now : Time) (req : Request) {f : Found}
    (h : f ≠ .nothing) : ∃ got headed,
      s.respond now { req with method := .get } f = some got ∧
      s.respond now { req with method := .head } f = some headed ∧
      headed.status = got.status ∧ headed.headers = got.headers ∧
      ((∀ entries, f ≠ .listing entries) ∧ headed.body = .empty ∨
        (∃ entries, f = .listing entries) ∧ headed = got ∧ headed.body ≠ .empty) := by
  cases f with
  | bare => exact ⟨_, _, rfl, rfl, rfl, rfl, Or.inl ⟨fun _ h => (by cases h), rfl⟩⟩
  | listing entries =>
    exact ⟨_, _, rfl, rfl, rfl, rfl,
      Or.inr ⟨⟨entries, rfl⟩, rfl, Listing.toUTF8_page_ne_empty _ _⟩⟩
  | nothing => exact absurd rfl h
  | file path content modified =>
    have hfresh (method : Method) : isFresh { req with method } (some modified) =
        isFresh req (some modified) := rfl
    simp only [respond, hfresh]
    cases isFresh req (some modified) with
    | true => exact ⟨_, _, rfl, rfl, rfl, rfl, Or.inl ⟨fun _ h => (by cases h), rfl⟩⟩
    | false => exact ⟨_, _, rfl, rfl, rfl, rfl, Or.inl ⟨fun _ h => (by cases h), rfl⟩⟩

/-- Whether a request is for a file or for its header fields only, it's left to the next handler, or
else answered alike and without changing anything. Only the header fields are sent in the latter
case, unless a folder is listed. -/
theorem serve_head (s : StaticFiles) (req : Request) (w : World) :
    (s.found w.files req.uri.path = .nothing ∧
      ∀ (jump : Jump) (next : Request → Serving Response),
        Middleware.serve jump next { req with method := .get } (.staticFiles s) w =
          next { req with method := .get } w ∧
        Middleware.serve jump next { req with method := .head } (.staticFiles s) w =
          next { req with method := .head } w) ∨
    (s.found w.files req.uri.path ≠ .nothing ∧ ∃ got headed : Response,
      (∀ (jump : Jump) (next : Request → Serving Response),
        Middleware.serve jump next { req with method := .get } (.staticFiles s) w =
          some (got, w) ∧
        Middleware.serve jump next { req with method := .head } (.staticFiles s) w =
          some (headed, w)) ∧
      headed.status = got.status ∧ headed.headers = got.headers ∧
      ((∀ entries, s.found w.files req.uri.path ≠ .listing entries) ∧ headed.body = .empty ∨
        (∃ entries, s.found w.files req.uri.path = .listing entries) ∧ headed = got ∧
          headed.body ≠ .empty)) := by
  by_cases hf : s.found w.files req.uri.path = .nothing
  · refine Or.inl ⟨hf, fun jump next => ?_⟩
    rw [serve_eq jump next (Or.inl rfl), serve_eq jump next (Or.inr rfl), hf]
    exact ⟨rfl, rfl⟩
  · obtain ⟨got, headed, hget, hhead, hsame⟩ := exists_respond_head s w.now req hf
    refine Or.inr ⟨hf, got, headed, fun jump next => ?_, hsame⟩
    rw [serve_eq jump next (Or.inl rfl), serve_eq jump next (Or.inr rfl), hget, hhead]
    exact ⟨rfl, rfl⟩

/-- A folder without index file. -/
def plainFolder : FileTree := FileTree.create {} "pub/a.txt" "a".toUTF8 0

/-- The folder is listed. -/
def plainStatic : StaticFiles where
  root := "pub"
  listing := true

/-- Content is sent to a client that asked for the header fields only. -/
theorem not_body_head_empty : ¬∀ (s : StaticFiles) (t : FileTree) (now : Time) (req : Request)
    (got headed : Response), s.answer? t now { req with method := .get } = some got →
    s.answer? t now { req with method := .head } = some headed →
    headed.status = got.status ∧ headed.headers = got.headers ∧ headed.body = .empty := by
  intro h
  have hr : plainStatic.resolve? "/" = some "pub/" := by decide +kernel
  have hfound : plainStatic.found plainFolder "/" = .listing [("a.txt", .file "a".toUTF8 0)] :=
    found_listing hr (by decide +kernel) (by decide) (by decide +kernel) rfl (by decide +kernel)
  have hanswer (method : Method) (hm : method = .get ∨ method = .head) :
      plainStatic.answer? plainFolder 0 { method, uri := { path := "/" } } =
        some (listed { uri := { path := "/" } } [("a.txt", .file "a".toUTF8 0)]) := by
    rw [answer?_eq hm, hfound]
    rfl
  have hempty := (h plainStatic plainFolder 0 { uri := { path := "/" } } _ _
    (hanswer .get (Or.inl rfl)) (hanswer .head (Or.inr rfl))).2.2
  exact Listing.toUTF8_page_ne_empty _ _ hempty

end StaticFiles

end RequestRouting
