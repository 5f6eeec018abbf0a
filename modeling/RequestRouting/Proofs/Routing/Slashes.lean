import RequestRouting.Middleware.NormalizePath
import RequestRouting.Proofs.Routing.Reference

/-!
# Paths as they should end

A redirection to the path that ends as it should is decided on the reference of a request, and leads
to the reference with one slash more or less. So a text is best seen as one that doesn't end in a
slash, followed by some slashes. A mount point in front of the redirection never ends in a slash, and
puts one behind itself if nothing else follows it.
-/

namespace RequestRouting

/-! Texts and the slashes they end in. -/

namespace Text

variable {s t : String}

/-- A number of slashes. -/
def slashes (k : Nat) : String := .ofList (List.replicate k '/')

theorem append_slashes_succ (s : String) (k : Nat) : s ++ slashes (k + 1) = s ++ slashes k ++ "/" :=
  String.ext (by simp [slashes, List.replicate_succ'])

theorem slashes_succ (k : Nat) : slashes (k + 1) = "/" ++ slashes k :=
  String.ext (by simp [slashes, List.replicate_succ])

theorem slashes_zero : slashes 0 = "" := rfl

theorem slashes_one : slashes 1 = "/" := rfl

/-- A text is what is left of it by trimming, and some slashes. -/
theorem exists_slashes (s : String) : ∃ k, s = trimTail (· = '/') s ++ slashes k := by
  obtain ⟨tail, hs, ht⟩ := exists_trimTail (· = '/') s
  have hr : tail.toList = List.replicate tail.toList.length '/' :=
    List.eq_replicate_iff.mpr ⟨rfl, fun c hc => by simpa using ht c hc⟩
  refine ⟨tail.toList.length, hs.trans (congrArg _ ?_)⟩
  rw [slashes, ← hr, String.ofList_toList]

theorem trimTail_append_slashes (s : String) (k : Nat) :
    trimTail (· = '/') (s ++ slashes k) = trimTail (· = '/') s := by
  rw [trimTail, String.toList_append, Chars.trimTail_append_of_pos, trimTail]
  intro c hc
  rw [slashes, String.toList_ofList] at hc
  simpa using List.eq_of_mem_replicate hc

/-- Trimming stops at a text that nothing is trimmed from. -/
theorem trimTail_append_of_trimmed (h : trimTail (· = '/') t = t) (s : String) :
    trimTail (· = '/') (t ++ s) = t ++ trimTail (· = '/') s := by
  obtain ⟨k, hs⟩ := exists_slashes s
  rw [hs, ← String.append_assoc, trimTail_append_slashes, trimTail_append_slashes, trimTail_trimTail]
  by_cases hn : trimTail (· = '/') s = ""
  · rw [hn, String.append_empty, h]
  · exact trimTail_append _ hn (trimTail_trimTail _ s) t

/-- There's no slash to be removed from a text that nothing is trimmed from. -/
theorem dropTail?_of_trimmed (h : trimTail (· = '/') s = s) : dropTail? "/" s = none := by
  rw [dropTail?_eq_none]
  rintro before rfl
  rw [← slashes_one, trimTail_append_slashes] at h
  obtain ⟨k, hb⟩ := exists_slashes before
  have hl := congrArg (·.toList.length) hb
  simp only [h, String.toList_append, List.length_append, slashes_one] at hl
  simp at hl
  omega

theorem trimTail_of_dropTail? (h : dropTail? "/" s = none) : trimTail (· = '/') s = s := by
  obtain ⟨k, hs⟩ := exists_slashes s
  cases k with
  | zero =>
    rw [slashes_zero, String.append_empty] at hs
    exact hs.symm
  | succ k =>
    rw [append_slashes_succ] at hs
    exact absurd hs (dropTail?_eq_none.mp h _)

/-- Between slashes there's nothing. -/
theorem pieces_slashes (k : Nat) : pieces '/' (slashes k) = List.replicate (k + 1) "" := by
  have hc : Chars.pieces '/' (List.replicate k '/') = List.replicate (k + 1) [] := by
    induction k with
    | zero => rfl
    | succ k ih => rw [List.replicate_succ, Chars.pieces, if_pos rfl, ih, ← List.replicate_succ]
  rw [pieces, slashes, String.toList_ofList, hc, List.map_replicate]

end Text

/-- A path of nothing but slashes isn't that of a file. -/
theorem Path.extension?_slashes (k : Nat) : extension? (Text.slashes (k + 1)) = none := by
  have hd : Text.dropLead? "/" (Text.slashes (k + 1)) = some (Text.slashes k) :=
    Text.dropLead?_eq_some.mpr (Text.slashes_succ k)
  have hc : components (Text.slashes (k + 1)) = [.root] := by
    rw [components, hd]
    simp [Text.pieces_slashes, Component.ofPart?]
  rw [extension?, fileName?, hc]
  rfl

namespace Request

/-- What stands in front of the path in the reference of a request. -/
def outer (req : Request) : String := Text.trimTail (· = '/') req.base

theorem reference_eq_outer (req : Request) : req.reference = req.outer ++ req.uri.path :=
  reference_eq req

@[simp] theorem trimTail_outer (req : Request) :
    Text.trimTail (· = '/') req.outer = req.outer := Text.trimTail_trimTail _ _

end Request

/-! What comes to a redirection below a mount point. -/

namespace BasePath

variable {b : BasePath} {req : Request}

/-- Nothing is trimmed from a mount point, as that's done where it's read. -/
theorem trimTail_base {path : String} (h : ofPath path = .ok b) :
    Text.trimTail (· = '/') b.base = b.base := by
  unfold ofPath at h
  split at h
  · obtain rfl := Except.ok.inj h
    exact Text.trimTail_trimTail _ _
  · cases h

/-- Whether a request is for the mount point itself, without a slash behind it. -/
def IsBare (b : BasePath) (req : Request) : Prop := b.base ≠ "" ∧ req.uri.path = b.base

@[simp] theorem query_apply (b : BasePath) (req : Request) :
    (b.apply req).uri.query = req.uri.query := by
  unfold apply
  repeat' split
  all_goals rfl

/-- What is left of a path below a mount point. -/
theorem path_apply {rest : String} (hn : b.base ≠ "")
    (hp : req.uri.path = b.base ++ ("/" ++ rest)) : (b.apply req).uri.path = "/" ++ rest := by
  have hd : Text.dropLead? b.base req.uri.path = some ("/" ++ rest) :=
    Text.dropLead?_eq_some.mpr hp
  have hs : Text.startsWith "/" ("/" ++ rest) = true := Text.startsWith_iff.mpr ⟨rest, rfl⟩
  unfold apply
  simp [hn, hd, hs, Request.set]

variable (ht : Text.trimTail (· = '/') b.base = b.base)

include ht

/-- A slash is put behind a mount point that has none. -/
theorem apply_of_isBare (h : b.IsBare req) :
    (b.apply req).uri.path = "/" ∧ (b.apply req).reference = req.reference ++ "/" := by
  obtain ⟨hn, hp⟩ := h
  have hd : Text.dropLead? b.base req.uri.path = some "" :=
    Text.dropLead?_eq_some.mpr (by rw [hp, String.append_empty])
  have hb : b.apply req = Request.set { req with uri.path := "/" } Attribute.base
      (req.outer ++ b.base) := by
    unfold apply Request.outer Request.base
    cases req.attributes.get? Attribute.base <;> simp [hn, hd]
  rw [hb]
  refine ⟨rfl, ?_⟩
  rw [Request.reference_eq, Request.reference_eq_outer, hp]
  simp [Request.base, Request.set, Text.trimTail_append _ hn ht]

theorem reference_apply (h : ¬ b.IsBare req) : (b.apply req).reference = req.reference := by
  by_cases hn : b.base = ""
  · simp [apply, hn]
  · exact (sameParts_apply b req ht fun hp => h ⟨hn, hp⟩).reference.symm

/-- The mount point with a slash behind it isn't the mount point itself. -/
theorem not_isBare_of_slash {before : String} (hp : req.uri.path = before ++ "/") :
    ¬ b.IsBare req := by
  rintro ⟨-, hb⟩
  exact Text.dropTail?_eq_none.mp (Text.dropTail?_of_trimmed ht) before (hb.symm.trans hp)

end BasePath

namespace NormalizePath

variable {n : NormalizePath} {req : Request} {reference : String}

/-- The reference a request is redirected to, unless it's handled as it is. -/
def target? (n : NormalizePath) (req : Request) : Option String :=
  if req.uri.path = "/" && req.reference = "/" then none
  else if n.skipFiles && (Path.extension? req.uri.path).isSome then none
  else adjusted? n.slash req.reference

theorem answer?_eq (n : NormalizePath) (req : Request) :
    n.answer? req = (n.target? req).map fun reference =>
      .redirect n.status (Uri.ofParts reference req.uri.query).text := by
  unfold answer? target?
  repeat' split
  all_goals rfl

theorem adjusted?_of_target? (h : n.target? req = some reference) :
    adjusted? n.slash req.reference = some reference := by
  unfold target? at h
  repeat' split at h
  · cases h
  · cases h
  · exact h

theorem target?_of_adjusted? (h : adjusted? n.slash req.reference = none) :
    n.target? req = none := by
  unfold target?
  rw [h]
  repeat' split
  all_goals rfl

/-- A slash is only appended where there is none. -/
theorem eq_of_adjusted?_append {adjusted : String}
    (h : adjusted? .append reference = some adjusted) :
    Text.dropTail? "/" reference = none ∧ adjusted = reference ++ "/" := by
  unfold adjusted? at h
  cases hd : Text.dropTail? "/" reference with
  | none =>
    rw [hd] at h
    exact ⟨rfl, (Option.some.inj h).symm⟩
  | some _ =>
    rw [hd] at h
    cases h

theorem adjusted?_append_slash (reference : String) :
    adjusted? .append (reference ++ "/") = none := by
  unfold adjusted?
  rw [Text.dropTail?_eq_some.mpr rfl]

theorem adjusted?_remove (reference : String) :
    adjusted? .remove reference = Text.dropTail? "/" reference := by
  unfold adjusted?
  cases Text.dropTail? "/" reference <;> rfl

end NormalizePath

end RequestRouting
