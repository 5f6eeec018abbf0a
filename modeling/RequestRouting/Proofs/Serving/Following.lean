import RequestRouting.Proofs.Http.Settled
import RequestRouting.Proofs.Routing.Slashes
import RequestRouting.Proofs.Serving

/-!
# Following redirections to the path as it should end

A client that is redirected by a mount point around a redirection of paths that don't end as they
should requests the location it was given. Each location has a slash more or less, so the client gets
through in the end. Only a slash that is to be removed from behind the mount point itself is put there
again each time.
-/

namespace RequestRouting

namespace Request

/-- The request for a location that the client that made a request was given. -/
def follow (req : Request) (location : String) : Request := { req with uri := .parse location }

variable (req : Request)

@[simp] theorem outer_follow (location : String) : (req.follow location).outer = req.outer := rfl

@[simp] theorem path_follow (reference : String) (query : Option String) :
    (req.follow (Uri.ofParts reference query).text).uri.path = reference := by
  rw [follow, Uri.parse_text]
  rfl

end Request

namespace Handler

/-- Whether a stack of layers hands a request to the handler below, as another one. -/
def HandsOn (stack : Handler → Handler) (req seen : Request) : Prop :=
  ∀ next jump w, (stack next).run jump req w = next.run jump seen w

/-- Whether a stack of layers redirects a request to a location, whatever the handler below. -/
def Redirects (stack : Handler → Handler) (req : Request) (location : String) : Prop :=
  ∀ next jump w, ∃ res, (stack next).run jump req w = some (res, w) ∧
    res.headers.get? .location = some location

/-- Whether a client gets through to the handler below a stack of layers, after following as many
redirections as it takes. -/
inductive GetsThrough (stack : Handler → Handler) : Request → Request → Prop where
  | handedOn {req seen : Request} (h : HandsOn stack req seen) : GetsThrough stack req seen
  | redirected {req seen : Request} {location : String} (h : Redirects stack req location)
      (hn : GetsThrough stack (req.follow location) seen) : GetsThrough stack req seen

variable {stack : Handler → Handler} {req seen : Request} {location location' : String}

theorem Redirects.unique (h : Redirects stack req location) (h' : Redirects stack req location') :
    location' = location := by
  obtain ⟨res, hr, hl⟩ := h notFound (fun _ _ => pure {}) {}
  obtain ⟨res', hr', hl'⟩ := h' notFound (fun _ _ => pure {}) {}
  obtain ⟨rfl, -⟩ := Prod.mk.inj (Option.some.inj (hr.symm.trans hr'))
  exact Option.some.inj (hl'.symm.trans hl)

/-- A request that is handed on isn't redirected if the handler below doesn't redirect it. -/
theorem HandsOn.not_redirects (h : HandsOn stack req seen) : ¬ Redirects stack req location := by
  intro hr
  obtain ⟨res, hres, hl⟩ := hr notFound (fun _ _ => pure {}) {}
  rw [h] at hres
  obtain ⟨rfl, -⟩ := Prod.mk.inj (Option.some.inj hres)
  cases hl

/-- A mount point around a redirection of paths that don't end as they should. -/
def mounted (b : BasePath) (n : NormalizePath) (next : Handler) : Handler :=
  .layer (.basePath b) (.layer (.normalizePath n) next)

variable {b : BasePath} {n : NormalizePath} {reference core : String}

theorem run_mounted (b : BasePath) (n : NormalizePath) (next : Handler) (jump : Jump)
    (req : Request) (w : World) : (mounted b n next).run jump req w =
      match n.target? (b.apply req) with
      | none => next.run jump (b.apply req) w
      | some reference =>
        some (.redirect n.status (Uri.ofParts reference req.uri.query).text, w) := by
  rw [mounted, Handler.run, Middleware.serve, Handler.run, Middleware.serve, n.answer?_eq,
    b.query_apply]
  cases n.target? (b.apply req) <;> rfl

theorem handsOn_mounted (h : n.target? (b.apply req) = none) :
    HandsOn (mounted b n) req (b.apply req) := by
  intro next jump w
  rw [run_mounted, h]

theorem redirects_mounted (h : n.target? (b.apply req) = some reference) :
    Redirects (mounted b n) req (Uri.ofParts reference req.uri.query).text := by
  intro next jump w
  rw [run_mounted, h]
  exact ⟨_, rfl, Response.get?_redirect _ _⟩

/-- A request gets through if it does so after one more redirection, or isn't redirected at all. -/
theorem exists_getsThrough (h : ∀ reference, n.target? (b.apply req) = some reference →
      ∃ seen, GetsThrough (mounted b n)
        (req.follow (Uri.ofParts reference req.uri.query).text) seen) :
    ∃ seen, GetsThrough (mounted b n) req seen := by
  cases ht : n.target? (b.apply req) with
  | none => exact ⟨_, .handedOn (handsOn_mounted ht)⟩
  | some reference =>
    obtain ⟨seen, hs⟩ := h reference ht
    exact ⟨seen, .redirected (redirects_mounted ht) hs⟩

section

variable (ht : Text.trimTail (· = '/') b.base = b.base)

include ht

/-- Where slashes are appended, one redirection is enough. -/
theorem exists_getsThrough_append (hn : n.slash = .append) (req : Request) :
    ∃ seen, GetsThrough (mounted b n) req seen := by
  refine exists_getsThrough fun reference hr => ?_
  have ha := NormalizePath.adjusted?_of_target? hr
  rw [hn] at ha
  obtain ⟨-, rfl⟩ := NormalizePath.eq_of_adjusted?_append ha
  -- The location ends in a slash, and so does its reference below the mount point.
  refine ⟨_, .handedOn (handsOn_mounted (NormalizePath.target?_of_adjusted? ?_))⟩
  have hp := req.path_follow ((b.apply req).reference ++ "/") req.uri.query
  rw [BasePath.reference_apply ht (BasePath.not_isBare_of_slash ht hp),
    Request.reference_eq_outer, hp, hn, ← String.append_assoc,
    NormalizePath.adjusted?_append_slash]

/-- Where slashes are removed, a path without any is left alone, unless it's the mount point. -/
theorem target?_of_trimmed (hn : n.slash = .remove) (hb : ¬ b.IsBare req)
    (hp : Text.trimTail (· = '/') req.uri.path = req.uri.path) :
    n.target? (b.apply req) = none := by
  refine NormalizePath.target?_of_adjusted? ?_
  rw [hn, NormalizePath.adjusted?_remove, BasePath.reference_apply ht hb,
    Request.reference_eq_outer]
  refine Text.dropTail?_of_trimmed ?_
  rw [Text.trimTail_append_of_trimmed req.trimTail_outer, hp]

/-- Where slashes are removed and something stands in front of the mount point, one redirection is
enough for the mount point itself. -/
theorem exists_getsThrough_isBare (hn : n.slash = .remove) (hbare : b.IsBare req)
    (ho : req.outer ≠ "") : ∃ seen, GetsThrough (mounted b n) req seen := by
  refine exists_getsThrough fun reference hr => ?_
  have ha := NormalizePath.adjusted?_of_target? hr
  rw [hn, NormalizePath.adjusted?_remove, (BasePath.apply_of_isBare ht hbare).2,
    Text.dropTail?_eq_some.mpr rfl, Request.reference_eq_outer] at ha
  obtain rfl := Option.some.inj ha
  have hpath := req.path_follow (req.outer ++ req.uri.path) req.uri.query
  -- The mount point with something in front of it isn't the mount point.
  refine ⟨_, .handedOn (handsOn_mounted (target?_of_trimmed ht hn ?_ ?_))⟩
  · rintro ⟨-, h⟩
    rw [hpath, ← hbare.2] at h
    exact ho (String.append_eq_right_iff.mp h)
  · rw [hpath, Text.trimTail_append_of_trimmed req.trimTail_outer, hbare.2, ht]

/-- Where slashes are removed, each redirection removes one of those a path ends in. The mount point
itself is only redirected to itself if there's nothing in front of it. -/
theorem exists_getsThrough_remove (hn : n.slash = .remove) (k : Nat)
    (hc : Text.trimTail (· = '/') core = core) (hp : req.uri.path = core ++ Text.slashes k)
    (hb : b.base = "" ∨ req.outer ≠ "" ∨ core ≠ b.base) :
    ∃ seen, GetsThrough (mounted b n) req seen := by
  induction k generalizing req core with
  | zero =>
    obtain rfl : req.uri.path = core := by rw [hp, Text.slashes_zero, String.append_empty]
    by_cases hbare : b.IsBare req
    · refine exists_getsThrough_isBare ht hn hbare ?_
      rcases hb with h | h | h
      · exact absurd h hbare.1
      · exact h
      · exact absurd hbare.2 h
    · exact ⟨_, .handedOn (handsOn_mounted (target?_of_trimmed ht hn hbare hc))⟩
  | succ k ih =>
    refine exists_getsThrough fun reference hr => ?_
    have ha := NormalizePath.adjusted?_of_target? hr
    rw [Text.append_slashes_succ] at hp
    rw [hn, NormalizePath.adjusted?_remove,
      BasePath.reference_apply ht (BasePath.not_isBare_of_slash ht hp), Request.reference_eq_outer,
      hp, ← String.append_assoc, Text.dropTail?_eq_some.mpr rfl, ← String.append_assoc] at ha
    obtain rfl := Option.some.inj ha
    refine ih ?_ (req.path_follow _ _) ?_
    · rw [Text.trimTail_append_of_trimmed req.trimTail_outer, hc]
    · rw [Request.outer_follow]
      by_cases ho : req.outer = ""
      · rw [ho, String.empty_append]
        rwa [ho] at hb
      · exact Or.inr (Or.inl ho)

end

/-- Whether a request is for a mount point with nothing in front of it, where slashes are removed. -/
structure Circles (b : BasePath) (n : NormalizePath) (req : Request) : Prop where
  slash : n.slash = .remove
  mounted : b.base ≠ ""
  outermost : req.outer = ""
  path : Text.trimTail (· = '/') req.uri.path = b.base

/-- The mount point with slashes behind it, or with one that is put there, is redirected to the mount
point with a slash less. -/
theorem Circles.target? (h : Circles b n req) : ∃ k,
    n.target? (b.apply req) = some (b.base ++ Text.slashes k) ∧
      (b.IsBare req → k = 0) := by
  have ht : Text.trimTail (· = '/') b.base = b.base := by rw [← h.path, Text.trimTail_trimTail]
  -- Below the mount point there are slashes only.
  have hseen : ∃ k, (b.apply req).uri.path = Text.slashes (k + 1) ∧
      (b.apply req).reference = b.base ++ Text.slashes (k + 1) ∧ (b.IsBare req → k = 0) := by
    by_cases hbare : b.IsBare req
    · obtain ⟨hp, hr⟩ := BasePath.apply_of_isBare ht hbare
      refine ⟨0, hp, ?_, fun _ => rfl⟩
      rw [hr, Request.reference_eq_outer, h.outermost, String.empty_append, hbare.2]
      rfl
    · obtain ⟨k, hk⟩ := Text.exists_slashes req.uri.path
      rw [h.path] at hk
      cases k with
      | zero => exact absurd ⟨h.mounted, by simpa [Text.slashes] using hk⟩ hbare
      | succ k =>
        refine ⟨k, ?_, ?_, fun hb => absurd hb hbare⟩
        · rw [Text.slashes_succ] at hk ⊢
          exact BasePath.path_apply h.mounted hk
        · rw [BasePath.reference_apply ht hbare, Request.reference_eq_outer, h.outermost,
            String.empty_append, hk]
  obtain ⟨k, hp, hr, hk⟩ := hseen
  refine ⟨k, ?_, hk⟩
  have hroot : b.base ++ Text.slashes (k + 1) ≠ "/" := by
    intro he
    have htrim := congrArg (Text.trimTail (· = '/')) he
    rw [Text.trimTail_append_slashes, ht] at htrim
    exact h.mounted htrim
  rw [NormalizePath.target?, hr, hp, Path.extension?_slashes, h.slash,
    NormalizePath.adjusted?_remove, Text.append_slashes_succ, Text.dropTail?_eq_some.mpr rfl]
  rw [Text.append_slashes_succ] at hroot
  simp [hroot]

/-- A client that goes in circles never gets through. -/
theorem GetsThrough.not_circles {seen : Request} (h : GetsThrough (mounted b n) req seen) :
    ¬ Circles b n req := by
  induction h with
  | handedOn h =>
    intro hc
    obtain ⟨k, ht, -⟩ := hc.target?
    exact h.not_redirects (redirects_mounted ht)
  | @redirected req seen location hr hn ih =>
    intro hc
    obtain ⟨k, ht, -⟩ := hc.target?
    obtain rfl := (redirects_mounted ht).unique hr
    refine ih ⟨hc.slash, hc.mounted, (req.outer_follow _).trans hc.outermost, ?_⟩
    rw [Request.path_follow, Text.trimTail_append_slashes, ← hc.path, Text.trimTail_trimTail]

section

variable (ht : Text.trimTail (· = '/') b.base = b.base)

include ht

/-- What isn't the mount point itself is redirected to another path. -/
theorem target?_ne_path (hbare : ¬ b.IsBare req) :
    n.target? (b.apply req) ≠ some req.uri.path := by
  intro hr
  have ha := NormalizePath.adjusted?_of_target? hr
  rw [BasePath.reference_apply ht hbare, Request.reference_eq_outer] at ha
  cases hs : n.slash with
  | append =>
    rw [hs] at ha
    have hl := congrArg (·.toList.length) (NormalizePath.eq_of_adjusted?_append ha).2
    simp at hl
    omega
  | remove =>
    rw [hs, NormalizePath.adjusted?_remove, Text.dropTail?_eq_some] at ha
    -- What is left by trimming both sides shows that nothing stands in front of the path.
    have htrim := congrArg (Text.trimTail (· = '/')) ha
    rw [← Text.slashes_one, Text.trimTail_append_slashes,
      Text.trimTail_append_of_trimmed req.trimTail_outer] at htrim
    rw [String.append_eq_right_iff.mp htrim, String.empty_append] at ha
    exact absurd (String.append_eq_left_iff.mp ha.symm) (by decide)

/-- The mount point itself is redirected to another path, unless slashes are removed and nothing stands
in front of it. -/
theorem circles_of_isBare (hbare : b.IsBare req)
    (hr : n.target? (b.apply req) = some req.uri.path) : Circles b n req := by
  have ha := NormalizePath.adjusted?_of_target? hr
  rw [(BasePath.apply_of_isBare ht hbare).2] at ha
  cases hs : n.slash with
  | append =>
    rw [hs, NormalizePath.adjusted?_append_slash] at ha
    cases ha
  | remove =>
    rw [hs, NormalizePath.adjusted?_remove, Text.dropTail?_eq_some.mpr rfl,
      Request.reference_eq_outer] at ha
    have houter : req.outer = "" := by simpa using Option.some.inj ha
    exact ⟨hs, hbare.1, houter, by rw [hbare.2, ht]⟩

/-- Exactly the mount point itself is redirected to the path that was requested, where slashes are
removed and nothing stands in front of it. -/
theorem target?_eq_path_iff (hr : n.target? (b.apply req) = some reference) :
    reference = req.uri.path ↔ Circles b n req ∧ req.uri.path = b.base := by
  constructor
  · rintro rfl
    by_cases hbare : b.IsBare req
    · exact ⟨circles_of_isBare ht hbare hr, hbare.2⟩
    · exact absurd hr (target?_ne_path ht hbare)
  · rintro ⟨hc, hp⟩
    obtain ⟨k, hk, hzero⟩ := hc.target?
    obtain rfl := hzero ⟨hc.mounted, hp⟩
    rw [← Option.some.inj (hk.symm.trans hr), hp, Text.slashes_zero, String.append_empty]

end

/-- A client that follows the locations it's given gets through to the handler below a mount point and
a redirection of paths that don't end as they should, unless it goes in circles. The only path that
is redirected to itself is the mount point where it does so. -/
theorem getsThrough_iff {path : String} (hb : BasePath.ofPath path = .ok b) (n : NormalizePath)
    (req : Request) :
    ((∃ seen, GetsThrough (mounted b n) req seen) ↔ ¬ Circles b n req) ∧
      ∀ location, Redirects (mounted b n) req location →
        ((req.follow location).uri.path = req.uri.path ↔
          Circles b n req ∧ req.uri.path = b.base) := by
  have ht := BasePath.trimTail_base hb
  refine ⟨⟨fun ⟨seen, h⟩ => h.not_circles, fun hc => ?_⟩, fun location hl => ?_⟩
  · cases hs : n.slash with
    | append => exact exists_getsThrough_append ht hs req
    | remove =>
      obtain ⟨k, hk⟩ := Text.exists_slashes req.uri.path
      refine exists_getsThrough_remove ht hs k (Text.trimTail_trimTail _ _) hk ?_
      by_cases hn : b.base = ""
      · exact Or.inl hn
      · by_cases ho : req.outer = ""
        · exact Or.inr (Or.inr fun hp => hc ⟨hs, hn, ho, hp⟩)
        · exact Or.inr (Or.inl ho)
  · cases hr : n.target? (b.apply req) with
    | none => exact absurd hl (handsOn_mounted hr).not_redirects
    | some reference =>
      rw [(redirects_mounted hr).unique hl, Request.path_follow]
      exact target?_eq_path_iff ht hr

theorem getsThrough_iff_menu : BasePath.ofPath "/app/" = .ok ⟨"/app"⟩ ∧
    ∃ seen, GetsThrough (mounted ⟨"/app"⟩ { slash := .remove })
      { uri := ⟨"/app/menu//", some "q=1"⟩ } seen := by
  have hb : BasePath.ofPath "/app/" = .ok ⟨"/app"⟩ := rfl
  refine ⟨hb, (getsThrough_iff hb _ _).1.mpr fun hc => ?_⟩
  exact absurd hc.path (by decide +kernel)

/-- A request for a mount point is redirected to itself where slashes are removed. -/
theorem not_getsThrough_always :
    ¬ ∀ (path : String) (b : BasePath) (n : NormalizePath) (req : Request),
      BasePath.ofPath path = .ok b → ∃ seen, GetsThrough (mounted b n) req seen := by
  intro h
  obtain ⟨seen, hs⟩ := h "/app/" ⟨"/app"⟩ { slash := .remove } { uri := ⟨"/app", none⟩ } rfl
  exact hs.not_circles ⟨rfl, by decide, by decide +kernel, by decide +kernel⟩

end Handler

end RequestRouting
