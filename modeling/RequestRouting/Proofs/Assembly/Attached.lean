import Mathlib.Data.List.Perm.Basic
import RequestRouting.Proofs.Assembly.Mounted
import RequestRouting.Proofs.Route.Collapse

/-!
# Handlers attached to a virtual host

A virtual host is built by attaching handlers one after the other. Its mounts are those of the
handlers, in the order of their length, so the first one that has to do with a path is the longest
of all that have: neither a shorter one, nor the redirection to another one, comes before it. Where
no two handlers are attached at the same mount point, there is only one longest mount, and the order
in which the handlers were attached makes no difference.
-/

namespace RequestRouting

/-- The request as a handler at a mount point gets it, for the rest of the path below that point,
which is added to the base. -/
def Request.below (req : Request) (point rest : String) : Request :=
  let bare := Text.trimTail (· = '/') point
  let base := Text.trimTail (· = '/') ((req.attributes.get? Attribute.base).getD "")
  let inner : Request := { req with uri := ⟨"/" ++ rest, req.uri.query⟩ }
  if bare = "" then inner else inner.set Attribute.base (base ++ bare)

namespace Mount

variable {m m' : Mount} {req : Request} {path rest : String}

/-- The mount point a handler is attached at by a path. -/
def pointOf (path : String) : String :=
  if Text.endsWith "/" (clean path) then clean path else clean path ++ "/"

/-- Whether a mount point has to do with a path, which starts with it, or is the mount point without
its slash. -/
def Covers (point path : String) : Prop :=
  (∃ rest, path = point ++ rest) ∨ path ≠ "" ∧ path ++ "/" = point

/-- What a mount makes of a request it has to do with. -/
def decision (m : Mount) (req : Request) : VirtualHost.Decision :=
  if Text.startsWith m.point req.uri.path then .handle m.handler
  else .redirect (.redirect .movedPermanently (Uri.ofParts m.point req.uri.query).text)

/-- A mount point ends in one slash. -/
theorem exists_pointOf (path : String) :
    ∃ bare, Text.trimTail (· = '/') bare = bare ∧ pointOf path = bare ++ "/" := by
  have hspaced := spaced_clean path
  unfold pointOf
  split
  · rename_i he
    obtain ⟨bare, hb⟩ := Text.endsWith_iff.mp he
    rw [hb, String.toList_append] at hspaced
    refine ⟨bare, Text.trimTail_eq_self fun c hc => ?_, hb⟩
    have hne : c ≠ '/' := fun h => hspaced.getLast?_ne (h ▸ hc)
    simpa using hne
  · rename_i he
    refine ⟨clean path, Text.trimTail_eq_self fun c hc => ?_, rfl⟩
    have hne : c ≠ '/' := fun h => he (endsWith_slash_iff.mpr (h ▸ hc))
    simpa using hne

/-- A mount point is the mount point without its slash, followed by the slash. -/
theorem pointOf_eq (path : String) :
    pointOf path = Text.trimTail (· = '/') (pointOf path) ++ "/" := by
  obtain ⟨bare, hb, hp⟩ := exists_pointOf path
  rw [hp, ← Text.slashes_one, Text.trimTail_append_slashes, hb]

theorem eq_pointOf {handler : Handler} (h : ofPath path handler = .ok m) :
    m.point = pointOf path := point_of_ofPath h

theorem point_eq {handler : Handler} (h : ofPath path handler = .ok m) :
    m.point = m.bare ++ "/" := by
  rw [bare, eq_pointOf h]
  exact pointOf_eq path

theorem concerns_iff (hp : m.point = m.bare ++ "/") :
    m.Concerns req ↔ Covers m.point req.uri.path := by
  unfold Concerns Covers
  rw [Text.startsWith_iff]
  refine or_congr_right ⟨fun ⟨hb, he⟩ => ?_, fun ⟨hn, he⟩ => ?_⟩
  · exact ⟨he ▸ hb, by rw [he, ← hp]⟩
  · have hbare : req.uri.path = m.bare := by
      rw [hp] at he
      exact String.append_left_inj "/" |>.mp he
    exact ⟨hbare ▸ hn, hbare⟩

/-- Two mounts of the same length have to do with the same path only if they're at the same
point. -/
theorem point_eq_of_covers (hp : m.point = m.bare ++ "/") (hp' : m'.point = m'.bare ++ "/")
    (hl : m'.length = m.length) (hc : m.Concerns req) (hc' : m'.Concerns req) :
    m'.point = m.point := by
  cases hc with
  | inl hs => exact point_eq_of_concerns hl hs hc'
  | inr hb =>
    cases hc' with
    | inl hs' => exact (point_eq_of_concerns hl.symm hs' (.inr hb)).symm
    | inr hb' => rw [hp, hp', ← hb.2, ← hb'.2]

/-- Below a mount point, the rest of the path comes to the handler. -/
theorem apply_eq_below (hp : m.point = m.bare ++ "/") (h : req.uri.path = m.point ++ rest) :
    BasePath.apply ⟨m.bare⟩ req = req.below m.point rest := by
  have hpath : req.uri.path = m.bare ++ ("/" ++ rest) := by
    rw [h, hp, String.append_assoc]
  unfold BasePath.apply Request.below
  rw [← bare]
  by_cases hb : m.bare = ""
  · rw [hb, String.empty_append] at hpath
    simp [hb, ← hpath]
  · have hd : Text.dropLead? m.bare req.uri.path = some ("/" ++ rest) :=
      Text.dropLead?_eq_some.mpr hpath
    have hs : Text.startsWith "/" ("/" ++ rest) = true := Text.startsWith_iff.mpr ⟨rest, rfl⟩
    cases req.attributes.get? Attribute.base <;> simp [hb, hd, hs]

end Mount

namespace VirtualHost

variable {h h' : VirtualHost} {mounts : List Mount} {m : Mount} {req : Request}
  {attached : List (String × Handler)}

/-- Attaches handlers at mount points, one after the other. -/
def attachAll (h : VirtualHost) : List (String × Handler) → Except MatcherError VirtualHost
  | [] => .ok h
  | (path, handler) :: rest => do (← h.attach path handler).attachAll rest

/-- Whether a mount is that of a handler at a path. -/
def Mounts (p : String × Handler) (m : Mount) : Prop := Mount.ofPath p.1 p.2 = .ok m

theorem attach_eq_ok_iff {path : String} {handler : Handler} :
    h.attach path handler = .ok h' ↔ ∃ m, Mounts (path, handler) m ∧ h' = h.add m := by
  unfold attach Mounts
  cases Mount.ofPath path handler with
  | error e => simp [Except.map]
  | ok m => simp [Except.map, eq_comm]

/-- Handlers can be attached if each of them can, and their mounts are added in order. -/
theorem attachAll_eq_ok_iff : h.attachAll attached = .ok h' ↔
    ∃ mounts, List.Forall₂ Mounts attached mounts ∧ h' = mounts.foldl add h := by
  induction attached generalizing h with
  | nil => simp [attachAll, eq_comm]
  | cons p rest ih =>
    constructor
    · intro ha
      obtain ⟨next, hnext, ha⟩ := exists_of_bind_ok ha
      obtain ⟨m, hm, rfl⟩ := attach_eq_ok_iff.mp hnext
      obtain ⟨mounts, hmounts, rfl⟩ := ih.mp ha
      exact ⟨m :: mounts, .cons hm hmounts, rfl⟩
    · rintro ⟨mounts, hmounts, rfl⟩
      cases hmounts with
      | cons hm hmounts =>
        rename_i m mounts
        rw [attachAll, attach_eq_ok_iff.mpr ⟨m, hm, rfl⟩]
        exact ih.mpr ⟨mounts, hmounts, rfl⟩

theorem mounts_add_perm (h : VirtualHost) (m : Mount) : (h.add m).mounts.Perm (m :: h.mounts) := by
  refine List.perm_middle.trans ?_
  rw [List.takeWhile_append_dropWhile]

theorem mounts_foldl_perm (h : VirtualHost) (mounts : List Mount) :
    (mounts.foldl add h).mounts.Perm (mounts ++ h.mounts) := by
  induction mounts generalizing h with
  | nil => exact .refl _
  | cons m rest ih =>
    refine (ih (h.add m)).trans ?_
    exact ((mounts_add_perm h m).append_left rest).trans List.perm_middle

theorem isOrdered_foldl (ho : h.IsOrdered) (mounts : List Mount) :
    (mounts.foldl add h).IsOrdered := by
  induction mounts generalizing h with
  | nil => exact ho
  | cons m rest ih => exact ih (ho.add m)

/-- Whether mounts are those of handlers that are attached at different mount points, the longest
ones first. -/
structure IsDistinct (mounts : List Mount) : Prop where
  ordered : mounts.Pairwise fun a b => b.length ≤ a.length
  nodup : (mounts.map (·.point)).Nodup
  slash : ∀ m ∈ mounts, m.point = m.bare ++ "/"

theorem IsDistinct.tail (hd : IsDistinct (m :: mounts)) : IsDistinct mounts where
  ordered := hd.ordered.of_cons
  nodup := hd.nodup.of_cons
  slash := fun m' hm => hd.slash m' (List.mem_cons_of_mem _ hm)

theorem decide_cons_of_concerns (mounts : List Mount) (hc : m.Concerns req) :
    decide req (m :: mounts) = m.decision req := by
  rw [decide, Mount.decision]
  split
  · rfl
  · rename_i hs
    obtain ⟨hb, hpath⟩ := hc.resolve_left hs
    simp [hpath, hb]

/-- The longest mount that has to do with a request decides on it. -/
theorem decide_eq_decision (hd : IsDistinct mounts) (hm : m ∈ mounts) (hc : m.Concerns req)
    (hl : ∀ m' ∈ mounts, m'.Concerns req → m'.length ≤ m.length) :
    decide req mounts = m.decision req := by
  induction mounts with
  | nil => cases hm
  | cons a rest ih =>
    by_cases ha : a.Concerns req
    · rw [decide_cons_of_concerns rest ha]
      cases hm with
      | head => rfl
      | tail _ hm =>
        -- mounts behind it aren't longer, so this one would be at the same point
        have hle : m.length ≤ a.length := (List.pairwise_cons.mp hd.ordered).1 m hm
        have heq : m.length = a.length := Nat.le_antisymm hle (hl a List.mem_cons_self ha)
        have hpoint := Mount.point_eq_of_covers (hd.slash a List.mem_cons_self)
          (hd.slash m (List.mem_cons_of_mem _ hm)) heq ha hc
        have hfresh := (List.nodup_cons.mp hd.nodup).1
        exact absurd (List.mem_map.mpr ⟨m, hm, hpoint⟩) hfresh
    · rw [decide_cons_of_not_concerns rest ha]
      have hne : m ≠ a := fun he => ha (he ▸ hc)
      exact ih hd.tail ((List.mem_cons.mp hm).resolve_left hne) fun m' hm' =>
        hl m' (List.mem_cons_of_mem _ hm')

theorem decide_eq_unknown (hn : ∀ m ∈ mounts, ¬m.Concerns req) :
    decide req mounts = .unknown := by
  induction mounts with
  | nil => rfl
  | cons a rest ih =>
    obtain ⟨ha, hrest⟩ := List.forall_mem_cons.mp hn
    rw [decide_cons_of_not_concerns rest ha]
    exact ih hrest

/-- If mounts have to do with a request, there is a longest one of them. -/
theorem IsDistinct.exists_longest (hd : IsDistinct mounts) (hc : ∃ m ∈ mounts, m.Concerns req) :
    ∃ m ∈ mounts, m.Concerns req ∧ ∀ m' ∈ mounts, m'.Concerns req → m'.length ≤ m.length := by
  induction mounts with
  | nil => simp at hc
  | cons a rest ih =>
    by_cases ha : a.Concerns req
    · refine ⟨a, List.mem_cons_self, ha, List.forall_mem_cons.mpr ⟨fun _ => Nat.le_refl _, ?_⟩⟩
      exact fun m' hm' _ => (List.pairwise_cons.mp hd.ordered).1 m' hm'
    · obtain ⟨m, hm, hcm, hl⟩ := ih hd.tail (by simpa [ha] using hc)
      refine ⟨m, List.mem_cons_of_mem _ hm, hcm, List.forall_mem_cons.mpr ⟨?_, hl⟩⟩
      exact fun h => absurd h ha

/-- Which mounts there are decides on a request, and not their order. -/
theorem IsDistinct.decide_eq {mounts' : List Mount} (hd : IsDistinct mounts)
    (hd' : IsDistinct mounts') (hp : mounts'.Perm mounts) (req : Request) :
    decide req mounts' = decide req mounts := by
  by_cases hc : ∃ m ∈ mounts, m.Concerns req
  · obtain ⟨m, hm, hcm, hl⟩ := hd.exists_longest hc
    rw [decide_eq_decision hd hm hcm hl]
    exact decide_eq_decision hd' (hp.mem_iff.mpr hm) hcm fun m' hm' => hl m' (hp.mem_iff.mp hm')
  · have hn : ∀ m ∈ mounts, ¬m.Concerns req := fun m hm h => hc ⟨m, hm, h⟩
    rw [decide_eq_unknown hn, decide_eq_unknown fun m hm => hn m (hp.mem_iff.mp hm)]

theorem map_point_of_forall₂ (hm : List.Forall₂ Mounts attached mounts) :
    mounts.map (·.point) = attached.map fun p => Mount.pointOf p.1 := by
  induction hm with
  | nil => rfl
  | cons hm _ ih => rw [List.map_cons, List.map_cons, Mount.eq_pointOf hm, ih]

theorem slash_of_forall₂ (hm : List.Forall₂ Mounts attached mounts) :
    ∀ m ∈ mounts, m.point = m.bare ++ "/" := by
  induction hm with
  | nil => exact fun m hm => absurd hm List.not_mem_nil
  | cons hm _ ih => exact List.forall_mem_cons.mpr ⟨Mount.point_eq hm, ih⟩

theorem exists_of_forall₂ (hm : List.Forall₂ Mounts attached mounts) {p : String × Handler}
    (hp : p ∈ attached) : ∃ m ∈ mounts, Mounts p m := by
  induction hm with
  | nil => cases hp
  | cons hfirst _ ih =>
    cases hp with
    | head => exact ⟨_, List.mem_cons_self, hfirst⟩
    | tail _ hp =>
      obtain ⟨m, hm, hmounts⟩ := ih hp
      exact ⟨m, List.mem_cons_of_mem _ hm, hmounts⟩

/-- Handlers attached at different mount points make different mounts. -/
theorem isDistinct_foldl (hm : List.Forall₂ Mounts attached mounts)
    (hd : (attached.map fun p => Mount.pointOf p.1).Nodup) :
    IsDistinct (mounts.foldl add {}).mounts := by
  have hp : (mounts.foldl add {}).mounts.Perm mounts := by
    simpa using mounts_foldl_perm {} mounts
  exact {
    ordered := isOrdered_foldl List.Pairwise.nil mounts
    nodup := by
      rw [(hp.map _).nodup_iff, map_point_of_forall₂ hm]
      exact hd
    slash := fun m hmem => slash_of_forall₂ hm m (hp.mem_iff.mp hmem) }

/-- Whether the mount point of an attached handler is the longest one that has to do with a path. -/
structure IsLongest (attached : List (String × Handler)) (path : String) (p : String × Handler) :
    Prop where
  mem : p ∈ attached
  covers : Mount.Covers (Mount.pointOf p.1) path
  longest : ∀ q ∈ attached, Mount.Covers (Mount.pointOf q.1) path →
    (Mount.pointOf q.1).utf8ByteSize ≤ (Mount.pointOf p.1).utf8ByteSize

/-- Whether a request is served at a mount point: the handler there gets it for the rest of the path
below that point, and it's redirected to the mount point if only its slash is missing. -/
structure IsServedAt (h : VirtualHost) (point : String) (handler : Handler) (fuel : Nat)
    (req : Request) : Prop where
  below : ∀ rest, req.uri.path = point ++ rest →
    h.serve fuel req = World.answer fuel handler (req.below point rest)
  bare : req.uri.path ++ "/" = point → h.serve fuel req = do
    return .redirect .movedPermanently (Uri.ofParts point req.uri.query).text

theorem isServedAt_of_decide {p : String × Handler} (hp : Mounts p m)
    (hdecide : decide req h.mounts = m.decision req) (fuel : Nat) :
    h.IsServedAt m.point p.2 fuel req := by
  constructor
  · intro rest hrest
    have hs : Text.startsWith m.point req.uri.path = true := Text.startsWith_iff.mpr ⟨rest, hrest⟩
    rw [serve, hdecide, Mount.decision, if_pos hs, (Mount.ofPath_eq_ok hp).2,
      ← Mount.apply_eq_below (Mount.point_eq hp) hrest]
    rfl
  · intro hbare
    have hs : ¬Text.startsWith m.point req.uri.path = true := by
      intro hs
      obtain ⟨rest, hrest⟩ := Text.startsWith_iff.mp hs
      have hl := congrArg (·.toList.length) (hbare ▸ hrest)
      simp at hl
    rw [serve, hdecide, Mount.decision, if_neg hs]

/-- However handlers are attached at different mount points, a request is served at the longest one
that has to do with its path, and isn't found if there's none. The order in which the handlers are
attached makes no difference. -/
theorem serve_attached (ha : attachAll {} attached = .ok h)
    (hd : (attached.map fun p => Mount.pointOf p.1).Nodup) (fuel : Nat) (req : Request) :
    (∀ p, IsLongest attached req.uri.path p →
      h.IsServedAt (Mount.pointOf p.1) p.2 fuel req) ∧
    ((∀ p ∈ attached, ¬Mount.Covers (Mount.pointOf p.1) req.uri.path) →
      h.serve fuel req = return .ofStatus .notFound) ∧
    ∀ attached' : List (String × Handler), attached'.Perm attached →
      ∃ h', attachAll {} attached' = .ok h' ∧ h'.serve fuel req = h.serve fuel req := by
  obtain ⟨mounts, hm, rfl⟩ := attachAll_eq_ok_iff.mp ha
  have hdistinct := isDistinct_foldl hm hd
  have hperm := mounts_foldl_perm {} mounts
  rw [List.append_nil] at hperm
  -- what is known of the paths is known of the mounts, and the other way round
  have hback : ∀ m ∈ (mounts.foldl add {}).mounts, m.Concerns req → ∃ q ∈ attached,
      m.point = Mount.pointOf q.1 ∧ Mount.Covers (Mount.pointOf q.1) req.uri.path := by
    intro m hmem hc
    have hpoint : m.point ∈ attached.map fun p => Mount.pointOf p.1 := by
      rw [← map_point_of_forall₂ hm]
      exact List.mem_map_of_mem (hperm.mem_iff.mp hmem)
    obtain ⟨q, hq, heq⟩ := List.mem_map.mp hpoint
    rw [Mount.concerns_iff (hdistinct.slash m hmem)] at hc
    exact ⟨q, hq, heq.symm, heq ▸ hc⟩
  refine ⟨fun p hp => ?_, fun hn => ?_, fun attached' hp' => ?_⟩
  · obtain ⟨m, hmem, hmounts⟩ := exists_of_forall₂ hm hp.mem
    rw [← Mount.eq_pointOf hmounts]
    apply isServedAt_of_decide hmounts
    apply decide_eq_decision hdistinct (hperm.mem_iff.mpr hmem)
    · rw [Mount.concerns_iff (Mount.point_eq hmounts), Mount.eq_pointOf hmounts]
      exact hp.covers
    · intro m' hm' hc'
      obtain ⟨q, hq, hpoint, hcovers⟩ := hback m' hm' hc'
      rw [Mount.length, Mount.length, hpoint, Mount.eq_pointOf hmounts]
      exact hp.longest q hq hcovers
  · rw [serve, decide_eq_unknown]
    intro m hmem hc
    obtain ⟨q, hq, -, hcovers⟩ := hback m hmem hc
    exact hn q hq hcovers
  · obtain ⟨mounts', hm', hpm⟩ := List.perm_comp_forall₂ hp' hm
    refine ⟨_, attachAll_eq_ok_iff.mpr ⟨mounts', hm', rfl⟩, ?_⟩
    have hd' : (attached'.map fun p => Mount.pointOf p.1).Nodup := (hp'.map _).nodup_iff.mpr hd
    have hperm' := mounts_foldl_perm {} mounts'
    rw [List.append_nil] at hperm'
    rw [serve, serve, hdistinct.decide_eq (isDistinct_foldl hm' hd')
      (hperm'.trans (hpm.trans hperm.symm))]

/-- A handler below the mount point of another one. -/
def nested : List (String × Handler) :=
  [("/", .status .ok), ("blog/admin", .status .created), ("/blog/", .status .accepted)]

/-- A request is served at the longest of three mount points. -/
theorem serve_attached_nested : ∃ h, attachAll {} nested = .ok h ∧
    (nested.map fun p => Mount.pointOf p.1).Nodup ∧
    IsLongest nested "/blog/post/" ("/blog/", .status .accepted) ∧
    ∀ fuel, h.serve fuel { uri := ⟨"/blog/post/", none⟩ } =
      World.answer fuel (.status .accepted)
        (Request.below { uri := ⟨"/blog/post/", none⟩ } "/blog/" "post/") := by
  obtain ⟨h, hh⟩ : ∃ h, attachAll {} nested = .ok h := by
    obtain ⟨h, hh, -⟩ : ∃ h ∈ (attachAll {} nested).toOption, h.mounts.length = 3 := by
      decide +kernel
    exact ⟨h, Assembly.eq_ok_of_toOption hh⟩
  have hd : (nested.map fun p => Mount.pointOf p.1).Nodup := by decide +kernel
  have hblog : Mount.pointOf "/blog/" = "/blog/" := by decide +kernel
  have hl : IsLongest nested "/blog/post/" ("/blog/", .status .accepted) := by
    refine ⟨by simp [nested], .inl ⟨"post/", by decide +kernel⟩, ?_⟩
    have hadmin : ¬Mount.Covers (Mount.pointOf "blog/admin") "/blog/post/" := by
      unfold Mount.Covers
      simp only [← Text.startsWith_iff]
      decide +kernel
    have hroot : (Mount.pointOf "/").utf8ByteSize ≤ (Mount.pointOf "/blog/").utf8ByteSize := by
      decide +kernel
    simp [nested, hadmin, hroot]
  refine ⟨h, hh, hd, hl, fun fuel => ?_⟩
  have hserved := (serve_attached hh hd fuel { uri := ⟨"/blog/post/", none⟩ }).1 _ hl
  rw [hblog] at hserved
  exact hserved.below "post/" (by decide +kernel)

/-- The empty path isn't redirected to a handler that's attached at the root. -/
theorem not_redirects_empty : ¬∀ (attached : List (String × Handler)) (h : VirtualHost),
    attachAll {} attached = .ok h → (attached.map fun p => Mount.pointOf p.1).Nodup →
    ∀ (fuel : Nat) (req : Request), ∀ p ∈ attached, req.uri.path ++ "/" = Mount.pointOf p.1 →
    (∀ q ∈ attached, (∃ rest, req.uri.path = Mount.pointOf q.1 ++ rest) ∨
        req.uri.path ++ "/" = Mount.pointOf q.1 →
      (Mount.pointOf q.1).utf8ByteSize ≤ (Mount.pointOf p.1).utf8ByteSize) →
    h.serve fuel req = do
      return .redirect .movedPermanently (Uri.ofParts (Mount.pointOf p.1) req.uri.query).text := by
  intro hredirects
  obtain ⟨h, hh, hserve⟩ : ∃ h ∈ (attachAll {} [("/", .status .ok)]).toOption,
      (h.serve 0 { uri := ⟨"", none⟩ } {}).map (·.1.status) = some .notFound := by
    decide +kernel
  have hredirect := hredirects _ h (Assembly.eq_ok_of_toOption hh) (by decide) 0
    { uri := ⟨"", none⟩ } _ List.mem_cons_self (by decide +kernel) (by simp)
  rw [hredirect] at hserve
  cases hserve

end VirtualHost

end RequestRouting
