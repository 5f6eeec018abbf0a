import RequestRouting.Assembly.Finish
import RequestRouting.Proofs.Serving
import RequestRouting.Proofs.Text.Cut

/-!
# Documents that pass through

The documents of all dispatchers that are referenced pass through the manual resource, under their
names without the slashes around them. A request for such a path executes the document of a library,
unless the resource has one of its own, or has the request redirected for want of a slash.
-/

namespace RequestRouting

namespace ManualNode

variable (node : ManualNode)

theorem mem_addPassThrough_iff {name other : String} :
    name ∈ (node.addPassThrough other).passThroughs.getD [] ↔
      name ∈ node.passThroughs.getD [] ∨ name = other := by
  unfold addPassThrough
  dsimp only [Option.getD_some]
  split
  · rename_i h
    constructor
    · exact Or.inl
    · rintro (h' | rfl)
      · exact h'
      · exact List.contains_iff_mem.mp h
  · simp

/-- What passes through are the configured documents, and those of all targets. -/
theorem mem_withTargets_iff {targets : List DispatchTarget} {name : String} :
    name ∈ (node.withTargets targets).passThroughs.getD [] ↔
      name ∈ node.passThroughs.getD [] ∨
        ∃ target ∈ targets, name = Text.trim (· = '/') target.dispatcher := by
  induction targets generalizing node with
  | nil => exact ⟨Or.inl, fun h => h.resolve_right nofun⟩
  | cons target rest ih =>
    refine (ih _).trans ?_
    simp only [mem_addPassThrough_iff, List.mem_cons, exists_eq_or_imp, or_assoc]

/-- The documents of all targets pass through. -/
theorem mem_withTargets {targets : List DispatchTarget} {target : DispatchTarget}
    (h : target ∈ targets) :
    Text.trim (· = '/') target.dispatcher ∈ (node.withTargets targets).passThroughs.getD [] :=
  node.mem_withTargets_iff.mpr (.inr ⟨target, h, rfl⟩)

theorem trailingSlashRequired_withTargets (targets : List DispatchTarget) :
    (node.withTargets targets).trailingSlashRequired = node.trailingSlashRequired := by
  induction targets generalizing node with
  | nil => rfl
  | cons first rest ih => exact ih _

theorem root_withTargets (targets : List DispatchTarget) :
    (node.withTargets targets).root = node.root := by
  induction targets generalizing node with
  | nil => rfl
  | cons first rest ih => exact ih _

end ManualNode

/-- Names that are the same without the slashes around them stand for the same document. -/
theorem Serving.find_congr {name name' : String}
    (h : Text.trim (· = '/') name = Text.trim (· = '/') name') (library : Library) :
    find library name = find library name' := by
  simp only [find, DocumentSource.find, h]

namespace Documents

variable {d : Documents} {req : Request} {document : Document} {w w₁ w₂ : World}

/-- A document that passes through is found in a library, under any name that only differs from its
own one by the slashes around it. -/
theorem find_of_passes {path name : String}
    (hname : Text.trim (· = '/') path = Text.trim (· = '/') name)
    (hp : Text.trim (· = '/') name ∈ d.passThroughs)
    (hsource : Serving.find d.source name w = some (none, w₁))
    (hlibrary : Serving.findFirst d.libraries (Text.trim (· = '/') name) w₁ =
      some (some document, w₂)) :
    d.find path w = some (some document, w₂) := by
  have hpasses : d.passes (Text.trim (· = '/') name) = true := by
    refine List.any_eq_true.mpr ⟨_, hp, ?_⟩
    simp
  rw [find, Serving.find_congr hname, hname]
  simp only [Serving.bind_apply, hsource, Option.bind_some, hpasses, if_true, hlibrary]

/-- Whether a document of a library is found for a request, as the resource has none of its own. -/
def FindsInLibrary (d : Documents) (req : Request) (w : World) (document : Document) : Prop :=
  ∃ w₁ w₂, Serving.find d.source req.uri.path w = some (none, w₁) ∧
    d.find req.uri.path w = some (some document, w₂)

/-- A document of a library is only found if it passes through. -/
theorem FindsInLibrary.exists_passThrough (h : d.FindsInLibrary req w document) :
    ∃ name ∈ d.passThroughs, Text.trim (· = '/') name = Text.trim (· = '/') req.uri.path := by
  obtain ⟨w₁, w₂, hsource, hfind⟩ := h
  rw [find] at hfind
  simp only [Serving.bind_apply, hsource, Option.bind_some] at hfind
  split at hfind
  · rename_i hpasses
    obtain ⟨name, hname, hp⟩ := List.any_eq_true.mp hpasses
    exact ⟨name, hname, by simpa using hp⟩
  · cases hfind

/-- A document that is found is executed, if the path ends in a slash. -/
theorem serve_of_endsWith (hfind : d.find req.uri.path w = some (some document, w₂))
    (hslash : Text.endsWith "/" req.uri.path = true) (hh : req.headers.get? .ifModifiedSince = none)
    {executor : Executor} (he : d.registry.executor? document.extension = some executor) :
    d.serve req w = (Serving.execute executor (d.invocation document) req w₂).map fun p =>
      (d.stamp document.modified p.1, p.2) := by
  have hredirect : d.redirection? req = none := by simp [redirection?, hslash]
  have hfresh : d.isFresh req document = false := by simp [isFresh, hh]
  rw [serve]
  simp only [Serving.bind_apply, hfind, Option.bind_some, hredirect, he, hfresh]
  rfl

/-- If slashes are required, a document isn't executed without one at the end of the path. -/
theorem serve_of_not_endsWith (hfind : d.find req.uri.path w = some (some document, w₂))
    (hrequired : d.trailingSlash = true) (hslash : Text.endsWith "/" req.uri.path = false) :
    d.serve req w = some (Response.redirect .movedPermanently
      (Uri.ofParts (req.reference ++ "/") req.uri.query).text, w₂) := by
  have hredirect : d.redirection? req = some (Response.redirect .movedPermanently
      (Uri.ofParts (req.reference ++ "/") req.uri.query).text) := by
    simp [redirection?, hrequired, hslash]
  rw [serve]
  simp only [Serving.bind_apply, hfind, Option.bind_some, hredirect]
  rfl

end Documents

end RequestRouting
