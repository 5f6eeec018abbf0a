import RequestRouting.Proofs.Assembly.Actions
import RequestRouting.Proofs.Http.Settled
import RequestRouting.Proofs.Http.Template
import RequestRouting.Proofs.Serving

/-!
# Redirections to a fixed location

A redirection that is left to the client is answered with the configured location as it's written
after it was read. So the client gets the location as it was configured if that's settled, and another
one if not: a number sign becomes an escape, so that the fragment is a part of the path, an escape
that isn't needed becomes the character it stands for, and an empty query is left out.
-/

namespace RequestRouting

variable {node : RedirectNode} {status : Status}

/-- No brace is among the characters that references are made of. -/
theorem Uri.not_mem_of_isReferenceChar {text : String}
    (hr : ∀ c ∈ text.toList, isReferenceChar c = true) : '\x7b' ∉ text.toList := by
  intro h
  have hc := hr _ h
  revert hc
  decide

/-- A template without variables is the same for all requests. -/
theorem Template.expand_parse {text : String} (h : '\x7b' ∉ text.toList) (req : Request) :
    (parse text).expand req = text := by
  obtain ⟨hv, ht⟩ := parse_of_not_mem h
  rw [expand_eq_text hv, ht]

namespace Assembly

/-- A redirection by the client is resolved into a handler that is the same wherever it's mounted. -/
theorem gives_redirect (hs : redirectStatus? node.mode = some status) (prebuilt : ResolvePrebuilt)
    (uri : String) (s : State) : ((Node.redirect node).resolve prebuilt uri).Gives s
      (.handler (.redirect (.parse node.uri) status)) s := by
  rw [Node.resolve, resolveRedirect, hs]
  exact gives_pure.mpr ⟨rfl, rfl⟩

/-- A redirection by the client to a location without variables is answered with that location, as
it's written when it's read. -/
theorem run_redirect (hb : '\x7b' ∉ node.uri.toList) (status : Status) (jump : Jump)
    (req : Request) (w : World) :
    (Handler.redirect (.parse node.uri) status).run jump req w =
      some (.redirect status (Uri.parse node.uri).text, w) := by
  rw [Handler.run, Template.expand_parse hb]
  rfl

/-- A redirection that is left to the client has its status and a location for every request. The
location is the configured one exactly if that's settled. -/
theorem redirect_location_iff (hs : redirectStatus? node.mode = some status)
    (hr : ∀ c ∈ node.uri.toList, Uri.isReferenceChar c = true) : ∃ handler : Handler,
      (∀ prebuilt uri s, ((Node.redirect node).resolve prebuilt uri).Gives s (.handler handler) s) ∧
      ∀ jump req w, ∃ res, handler.run jump req w = some (res, w) ∧ res.status = status ∧
        ∃ location, res.headers.get? .location = some location ∧
          (location = node.uri ↔ Uri.IsSettled node.uri) := by
  refine ⟨_, gives_redirect hs, fun jump req w => ?_⟩
  have hrun := run_redirect (Uri.not_mem_of_isReferenceChar hr) status jump req w
  exact ⟨_, hrun, rfl, _, Response.get?_redirect _ _, Uri.text_parse_eq_self_iff hr⟩

theorem redirect_location_iff_escapes :
    let node : RedirectNode := { uri := "/caf%C3%A9/?q=%2f#top", mode := .seeOther }
    ∃ handler : Handler,
      (∀ prebuilt uri s, ((Node.redirect node).resolve prebuilt uri).Gives s (.handler handler) s) ∧
      ∀ jump req w, ∃ res, handler.run jump req w = some (res, w) ∧ res.status = .seeOther ∧
        res.headers.get? .location = some "/caf%C3%A9/?q=%2f#top" := by
  intro node
  have hr : ∀ c ∈ node.uri.toList, Uri.isReferenceChar c = true :=
    List.all_eq_true.mp (by decide +kernel)
  have hsettled : Uri.IsSettled node.uri := (Uri.text_parse_eq_self_iff hr).mp (by decide +kernel)
  have hs : redirectStatus? node.mode = some .seeOther := rfl
  obtain ⟨handler, hg, hrun⟩ := redirect_location_iff hs hr
  refine ⟨handler, hg, fun jump req w => ?_⟩
  obtain ⟨res, h, hs, location, hl, hiff⟩ := hrun jump req w
  exact ⟨res, h, hs, hl.trans (congrArg some (hiff.mpr hsettled))⟩

/-- The fragment of a location isn't sent as it was configured. -/
theorem not_redirect_location_always :
    ¬ ∀ (node : RedirectNode) (status : Status), redirectStatus? node.mode = some status →
      (∀ c ∈ node.uri.toList, Uri.isReferenceChar c = true) →
      ∀ (prebuilt : ResolvePrebuilt) (uri : String) (s t : State) (handler : Handler),
        ((Node.redirect node).resolve prebuilt uri).Gives s (.handler handler) t →
        ∀ (jump : Jump) (req : Request) (w w' : World) (res : Response),
          handler.run jump req w = some (res, w') →
            res.headers.get? .location = some node.uri := by
  intro h
  have hl := h { uri := "/docs/#install" } .movedPermanently rfl
    (List.all_eq_true.mp (by decide +kernel)) (fun _ _ => pure .hidden) "/"
    ⟨{ name := "app", root := "." }, {}⟩ _ _ (gives_redirect rfl _ _ _) (fun _ _ => pure {}) {} {}
    _ _ (run_redirect (by decide +kernel) _ _ _ _)
  rw [Response.get?_redirect] at hl
  exact absurd (Option.some.inj hl) (by decide +kernel)

end Assembly

end RequestRouting
