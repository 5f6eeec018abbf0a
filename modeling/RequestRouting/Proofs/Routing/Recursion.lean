import RequestRouting.Proofs.Http.Uri
import RequestRouting.Proofs.Routing.Forwarding
import RequestRouting.Proofs.Text.Lines

/-!
# Recursive redirections

The history of a request is the list of the paths it was forwarded to, as a text with one line for
each. So a path that a request comes back to is noticed, as long as the paths are lines of their
own. The history doesn't tell applications apart, paths that aren't lines may go unnoticed, and a
part of such a path is taken for a path.
-/

namespace RequestRouting

open Request (KeepsHistory)

theorem extendHistory_eq {history : String} (h : history ≠ "") (path : String) :
    extendHistory history path = history ++ "\n" ++ path := by
  have he : history.isEmpty = false := by simpa using h
  rw [extendHistory, he]
  rfl

/-- A path that's a line is in the history it was put at the end of. -/
theorem mem_extendHistory_self {history path : String} (h : Text.IsLine path) :
    path ∈ Text.lines (extendHistory history path) := by
  by_cases hn : history = ""
  · subst hn
    rw [Text.mem_lines, extendHistory, if_pos (by decide), h.lines_eq]
    exact List.mem_singleton_self _
  · rw [extendHistory_eq hn]
    exact h.mem_lines_self

/-- A path that's a line stays in the history if others are put at its end. -/
theorem mem_extendHistory {history line : String} (h : Text.IsLine line)
    (hm : line ∈ Text.lines history) (path : String) :
    line ∈ Text.lines (extendHistory history path) := by
  have hn : history ≠ "" := by
    rintro rfl
    cases hm
  rw [extendHistory_eq hn]
  exact h.mem_lines_append hm

/-- Another path at the end of a history is one more line, but an empty path in front of all others
leaves no trace. -/
theorem extendHistory_join (paths : List String) (path : String) :
    extendHistory (Text.join "\n" (paths.dropWhile (·.isEmpty))) path =
      Text.join "\n" ((paths ++ [path]).dropWhile (·.isEmpty)) := by
  rw [List.dropWhile_append]
  cases hd : paths.dropWhile (·.isEmpty) with
  | nil =>
    by_cases hp : path = ""
    · subst hp
      rfl
    · have he : path.isEmpty = false := by simpa using hp
      simp [Text.join, extendHistory, he]
  | cons first rest =>
    have hf : first ≠ "" := by
      have := List.head?_dropWhile_not (·.isEmpty) paths
      simpa [hd] using this
    rw [extendHistory_eq (Text.join_ne_empty hf rest), List.isEmpty_cons, if_neg (by simp),
      Text.join_concat (by simp)]

/-- A request has been forwarded to targets and paths one after another, starting without history
and with nothing else writing to it. -/
inductive Trail : List (World.Target × String) → Request → Prop where
  | start {req : Request} (h : req.attributes.get? Attribute.history = none) : Trail [] req
  /-- Handlers may change anything but the history. -/
  | handle {visits : List (World.Target × String)} {req req' : Request} (h : Trail visits req)
      (hk : KeepsHistory req req') : Trail visits req'
  | forward {visits : List (World.Target × String)} {req req' : Request} (h : Trail visits req)
      (f : Forwarder) (hl : Attribute.history ∉ f.locals.map (·.1))
      (hf : f.forward? req = some req') : Trail (visits ++ [(f.target, f.path req)]) req'

namespace Trail

variable {visits : List (World.Target × String)} {req : Request}

/-- The history has the paths that were visited, one per line. -/
theorem history_eq (h : Trail visits req) :
    req.history = Text.join "\n" ((visits.map (·.2)).dropWhile (·.isEmpty)) := by
  induction h with
  | start h =>
    rw [Request.history, h]
    rfl
  | handle _ hk ih => rw [hk.history_eq, ih]
  | @forward visits req req' _ f hl hf ih =>
    rw [f.forward?_eq req hl] at hf
    split at hf
    · cases hf
    · obtain rfl := Option.some.inj hf
      rw [Request.history_capturedTo, (f.keepsHistory_prepared req hl).history_eq, ih,
        List.map_append, List.map_singleton]
      exact extendHistory_join _ _

/-- A request is refused, and answered with 500, exactly if the path is a line of the paths visited
before, put together. If these are lines of their own, that's exactly if the path is one of them,
whichever application it was visited in. Otherwise the request jumps to the target, and the path is
visited. -/
theorem refuses_iff (h : Trail visits req) (f : Forwarder)
    (hl : Attribute.history ∉ f.locals.map (·.1)) :
    (f.forward? req = none ↔ f.path req ∈
      Text.lines (Text.join "\n" ((visits.map (·.2)).dropWhile (·.isEmpty)))) ∧
    ((∀ visit ∈ visits, Text.IsLine visit.2) →
      (f.forward? req = none ↔ ∃ visit ∈ visits, visit.2 = f.path req)) ∧
    ∀ jump w, f.IsReady w →
      (f.forward? req = none →
        f.handler.run jump req w = some (.ofStatus .internalServerError, w)) ∧
      ∀ req', f.forward? req = some req' →
        f.handler.run jump req w = jump f.target req' w ∧
          req'.uri.path = f.path req ∧ Trail (visits ++ [(f.target, f.path req)]) req' := by
  have hiff : f.forward? req = none ↔ f.path req ∈
      Text.lines (Text.join "\n" ((visits.map (·.2)).dropWhile (·.isEmpty))) := by
    rw [f.forward?_eq req hl, h.history_eq]
    split <;> simp_all
  refine ⟨hiff, ?_, ?_⟩
  · intro hlines
    have hpaths : ∀ path ∈ visits.map (·.2), Text.IsLine path := by
      intro path hp
      obtain ⟨visit, hv, rfl⟩ := List.mem_map.mp hp
      exact hlines visit hv
    have hdrop : (visits.map (·.2)).dropWhile (·.isEmpty) = visits.map (·.2) := by
      cases hm : visits.map (·.2) with
      | nil => rfl
      | cons first rest =>
        have hf : first.isEmpty = false := by
          simpa using (hpaths first (by simp [hm])).ne_empty
        rw [List.dropWhile_cons_of_neg (by simp [hf])]
    rw [hiff, hdrop, Text.lines_join hpaths, List.mem_map]
  · intro jump w hr
    rw [f.run_handler req jump hr]
    refine ⟨fun hn => by rw [hn], fun req' hf => ?_⟩
    have hpath : req'.uri.path = f.path req := by
      have he := hf
      rw [f.forward?_eq req hl] at he
      split at he
      · cases he
      · obtain rfl := Option.some.inj he
        rw [Request.uri_capturedTo]
        rfl
    exact ⟨by rw [hf], hpath, h.forward f hl hf⟩

/-- A capture to a page. -/
def toPage : Capture := .ofUri "/page/"

/-- A capture into another application. -/
def toOther : Capture := { Capture.ofUri "/other/" with application := some "other" }

theorem path_toPage (req : Request) : (Forwarder.capture toPage 0).path req = "/page/" := by
  rw [Forwarder.path_of_not_mem rfl (by decide), Uri.path_parse (by decide) (by decide)]

/-- A request that went to a page, and on to another application, isn't forwarded to the page
again. -/
theorem refuses_iff_page : ∃ req,
    Trail [(.slot 0, "/page/"), (.application "other", "/other/")] req ∧
    Attribute.history ∉ (Forwarder.capture toPage 0).locals.map (·.1) ∧
    (Forwarder.capture toPage 0).forward? req = none := by
  have hstart : Trail [] ({} : Request) := .start rfl
  obtain ⟨-, hfirst, -⟩ := hstart.refuses_iff (.capture toPage 0) (by decide)
  obtain ⟨first, hf⟩ : ∃ first, (Forwarder.capture toPage 0).forward? {} = some first := by
    refine Option.ne_none_iff_exists'.mp (mt (hfirst nofun).mp ?_)
    rintro ⟨visit, hv, -⟩
    cases hv
  have hpage : Trail [(.slot 0, "/page/")] first := by
    have h := hstart.forward (.capture toPage 0) (by decide) hf
    rwa [path_toPage] at h
  have hother : (Forwarder.capture toOther 0).path first = "/other/" := by
    rw [Forwarder.path_of_not_mem rfl (by decide), Uri.path_parse (by decide) (by decide)]
  obtain ⟨-, hsecond, -⟩ := hpage.refuses_iff (.capture toOther 0) (by decide)
  have hline : Text.IsLine "/page/" := ⟨by decide, by decide, by decide⟩
  obtain ⟨req, hs⟩ : ∃ req, (Forwarder.capture toOther 0).forward? first = some req := by
    refine Option.ne_none_iff_exists'.mp (mt (hsecond (by simpa using hline)).mp ?_)
    rw [hother]
    simp
  have hvisits : Trail [(.slot 0, "/page/"), (.application "other", "/other/")] req := by
    have h := hpage.forward (.capture toOther 0) (by decide) hs
    rwa [hother] at h
  obtain ⟨-, hlines, -⟩ := hvisits.refuses_iff (.capture toPage 0) (by decide)
  refine ⟨req, hvisits, by decide, (hlines ?_).mpr ?_⟩
  · have hline' : Text.IsLine "/other/" := ⟨by decide, by decide, by decide⟩
    simpa using ⟨hline, hline'⟩
  · exact ⟨(.slot 0, "/page/"), List.mem_cons_self, (path_toPage req).symm⟩

/-- A capture to a path with a line feed in it. -/
def toFeed : Capture := .ofUri "/list%0A/page/"

/-- A path that wasn't visited may be refused: `/page/` is, once a request went to a path in which
it stands behind a line feed. -/
theorem not_recursion_exact : ¬∀ (α : Type) (owner : World.Target → α)
    (visits : List (World.Target × String)) (req : Request) (f : Forwarder), Trail visits req →
    Attribute.history ∉ f.locals.map (·.1) →
    (f.forward? req = none ↔
      ∃ visit ∈ visits, owner visit.1 = owner f.target ∧ visit.2 = f.path req) := by
  intro hclaim
  have hstart : Trail [] ({} : Request) := .start rfl
  have hpath : (Forwarder.capture toFeed 0).path {} = "/list\n/page/" := by
    rw [Forwarder.path_of_not_mem rfl (by decide)]
    decide +kernel
  obtain ⟨req, hreq⟩ : ∃ req, (Forwarder.capture toFeed 0).forward? {} = some req := by
    rw [Forwarder.forward?_eq _ _ (by decide), hpath, if_neg (by decide)]
    exact ⟨_, rfl⟩
  have hfeed : Trail [(.slot 0, "/list\n/page/")] req := by
    have h := hstart.forward (.capture toFeed 0) (by decide) hreq
    rwa [hpath] at h
  have hn : (Forwarder.capture toPage 0).forward? req = none := by
    rw [Forwarder.forward?_eq _ _ (by decide), path_toPage, hfeed.history_eq, if_pos (by decide)]
  obtain ⟨visit, hv, -, hvisit⟩ := (hclaim _ id _ req (.capture toPage 0) hfeed (by decide)).mp hn
  rw [List.mem_singleton.mp hv, path_toPage] at hvisit
  exact absurd hvisit (by decide)

end Trail

end RequestRouting
