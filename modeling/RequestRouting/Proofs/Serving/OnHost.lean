import RequestRouting.Proofs.Assembly.Actions
import RequestRouting.Proofs.Http.Settled
import RequestRouting.Proofs.Routing.Mount
import RequestRouting.Proofs.Routing.Slashes
import RequestRouting.Proofs.Serving.Passing

/-!
# Locations on the same host

A location that starts with two slashes leads a client to another host, whose name it takes from what
follows them. The location of a redirection to the path as it should end starts in the same way as
the reference it's made from, and no mount point or router makes a reference start with two slashes.
So a client is only led to another host by a path that starts with two slashes itself.
-/

namespace RequestRouting

/-! Texts that start with slashes. -/

namespace Text

variable {s t : String}

theorem startsWith_iff_prefix : startsWith t s = true ↔ t.toList <+: s.toList := by
  rw [startsWith_iff]
  constructor
  · rintro ⟨rest, rfl⟩
    exact ⟨rest.toList, String.toList_append.symm⟩
  · rintro ⟨rest, h⟩
    exact ⟨.ofList rest, String.ext (by simp [← h])⟩

theorem startsWith_slash : startsWith "/" s = true ↔ ∃ rest, s.toList = '/' :: rest :=
  startsWith_iff_prefix.trans (exists_congr fun _ => eq_comm)

theorem startsWith_slashes : startsWith "//" s = true ↔ ∃ rest, s.toList = '/' :: '/' :: rest :=
  startsWith_iff_prefix.trans (exists_congr fun _ => eq_comm)

/-- A slash behind a text that starts with one makes it start with two only if it's all there was. -/
theorem startsWith_slashes_append (h : startsWith "/" s = true) :
    startsWith "//" (s ++ "/") = true ↔ startsWith "//" s = true ∨ s = "/" := by
  obtain ⟨rest, hs⟩ := startsWith_slash.mp h
  have hslash : s = "/" ↔ rest = [] := by
    rw [← String.toList_inj, hs]
    simp
  rw [startsWith_slashes, startsWith_slashes, hslash, String.toList_append, hs]
  cases rest <;> simp

/-- What follows a text makes no difference to whether it starts with a slash. -/
theorem startsWith_slash_append (hn : s ≠ "") (t : String) :
    startsWith "/" (s ++ t) = startsWith "/" s := by
  rw [Bool.eq_iff_iff, startsWith_slash, startsWith_slash, String.toList_append]
  cases hs : s.toList with
  | nil => exact absurd (String.toList_eq_nil_iff.mp hs) hn
  | cons c more => simp

/-- What follows a text that doesn't end in a slash makes no difference to how many it starts with. -/
theorem startsWith_slashes_trimmed (ht : trimTail (· = '/') s = s) (hn : s ≠ "") (t : String) :
    startsWith "//" (s ++ t) = startsWith "//" s := by
  rw [Bool.eq_iff_iff, startsWith_slashes, startsWith_slashes, String.toList_append]
  cases hs : s.toList with
  | nil => exact absurd (String.toList_eq_nil_iff.mp hs) hn
  | cons c more =>
    cases more with
    | cons d more => simp
    | nil =>
      -- A text of one character isn't a slash.
      have hc : c ≠ '/' := by
        rintro rfl
        rw [show s = "/" from String.toList_inj.mp hs] at ht
        exact absurd ht (by decide +kernel)
      simp [hc]

/-- The slashes in front of another one make no difference to whether a text starts with a slash, and
to whether it starts with two of them only if they're at the start. -/
theorem startsWith_trimTail (s t : String) :
    (startsWith "/" (s ++ ("/" ++ t)) = true →
      startsWith "/" (trimTail (· = '/') s ++ ("/" ++ t)) = true) ∧
    (startsWith "//" (trimTail (· = '/') s ++ ("/" ++ t)) = true →
      startsWith "//" (s ++ ("/" ++ t)) = true) := by
  obtain ⟨k, hs⟩ := exists_slashes s
  by_cases hn : trimTail (· = '/') s = ""
  · rw [hn, String.empty_append] at hs ⊢
    rw [hs]
    refine ⟨fun _ => startsWith_iff.mpr ⟨t, rfl⟩, fun h => ?_⟩
    cases k with
    | zero => rwa [slashes_zero, String.empty_append]
    | succ k =>
      rw [startsWith_slashes]
      cases k with
      | zero => exact ⟨t.toList, by simp [slashes]⟩
      | succ k => exact ⟨(slashes k ++ ("/" ++ t)).toList, by simp [slashes, List.replicate_succ]⟩
  · constructor
    · intro h
      rw [hs, String.append_assoc, startsWith_slash_append hn] at h
      exact startsWith_append h _
    · intro h
      rw [startsWith_slashes_trimmed (trimTail_trimTail _ _) hn] at h
      rw [hs, String.append_assoc]
      exact startsWith_append h _

end Text

namespace Uri

variable {c : Char} {s tail : List Char}

/-- Only a slash is written as a text that starts with a slash. -/
theorem written_of_ne (h : c ≠ '/') : ∃ d more, written c = d :: more ∧ d ≠ '/' := by
  unfold written
  split
  · -- The first byte, whatever it is, is written with a percent sign.
    obtain ⟨b, bytes, hb, -⟩ := Text.Utf8.first_encode c []
    exact ⟨'%', _, by rw [escapes, hb]; rfl, by decide⟩
  · exact ⟨c, [], rfl, h⟩

theorem written_slash : written '/' = ['/'] := by decide

/-- What is written for a path starts with as many slashes as the path. -/
theorem prefix_flatMap_written (ht : tail.head? ≠ some '/') (k : Nat) :
    List.replicate k '/' <+: s.flatMap written ++ tail ↔ List.replicate k '/' <+: s := by
  induction k generalizing s with
  | zero => simp
  | succ k ih =>
    rw [List.replicate_succ]
    cases s with
    | nil =>
      refine iff_of_false ?_ (by simp)
      rintro ⟨rest, h⟩
      rw [List.flatMap_nil, List.nil_append] at h
      exact ht (by rw [← h]; rfl)
    | cons c s =>
      by_cases hc : c = '/'
      · subst c
        rw [List.flatMap_cons, written_slash, List.cons_append, List.nil_append, List.cons_append,
          List.cons_prefix_cons, List.cons_prefix_cons, ih]
      · obtain ⟨d, more, hw, hd⟩ := written_of_ne hc
        simp [hw, List.cons_prefix_cons, Ne.symm hd, Ne.symm hc]

/-- The text of a URI starts with as many slashes as its path, as a query starts with a question
mark. -/
theorem startsWith_text (uri : Uri) (k : Nat) :
    Text.startsWith (Text.slashes k) uri.text = Text.startsWith (Text.slashes k) uri.path := by
  rw [Bool.eq_iff_iff, Text.startsWith_iff_prefix, Text.startsWith_iff_prefix, Text.slashes,
    String.toList_ofList, text, String.toList_append, toList_encode_eq]
  refine prefix_flatMap_written ?_ k
  cases uri.query <;> simp

end Uri

namespace NormalizePath

variable {n : NormalizePath} {req : Request} {reference : String}

/-- The root is left alone. -/
theorem reference_ne_of_target? (h : n.target? req = some reference) : req.reference ≠ "/" := by
  intro hr
  have hp : req.uri.path = "/" := by
    have htrim := congrArg (Text.trimTail (· = '/')) (req.reference_eq_outer.symm.trans hr)
    rw [Text.trimTail_append_of_trimmed req.trimTail_outer] at htrim
    have houter : req.outer = "" := (String.append_eq_empty_iff.mp htrim).1
    rw [← hr, req.reference_eq_outer, houter, String.empty_append]
  rw [target?, hr, hp] at h
  cases h

/-- The reference a request is redirected to starts with as many slashes as that of the request, up to
two, except where it's two slashes that are all there is. -/
theorem startsWith_of_target? (h : n.target? req = some reference)
    (hs : Text.startsWith "/" req.reference = true) : Text.startsWith "/" reference = true ∧
      (Text.startsWith "//" reference = true ↔
        Text.startsWith "//" req.reference = true ∧ req.reference ≠ "//") := by
  have hroot := reference_ne_of_target? h
  have ha := adjusted?_of_target? h
  cases hn : n.slash with
  | append =>
    rw [hn] at ha
    obtain ⟨hd, rfl⟩ := eq_of_adjusted?_append ha
    have hne : req.reference ≠ "//" := Text.dropTail?_eq_none.mp hd "/"
    refine ⟨Text.startsWith_append hs "/", ?_⟩
    rw [Text.startsWith_slashes_append hs, or_iff_left hroot, and_iff_left hne]
  | remove =>
    rw [hn, adjusted?_remove, Text.dropTail?_eq_some] at ha
    rw [ha] at hroot hs ⊢
    have hne : reference ≠ "" := by
      rintro rfl
      exact hroot rfl
    have hs' : Text.startsWith "/" reference = true := by
      rwa [Text.startsWith_slash_append hne] at hs
    refine ⟨hs', ?_⟩
    rw [Text.startsWith_slashes_append hs']
    constructor
    · intro hslashes
      refine ⟨Or.inl hslashes, fun he => ?_⟩
      obtain ⟨rest, hrest⟩ := Text.startsWith_slashes.mp hslashes
      have hl := congrArg (·.toList.length) he
      simp [hrest] at hl
    · rintro ⟨hslashes | rfl, hne⟩
      · exact hslashes
      · exact absurd (by decide) hne

end NormalizePath

/-! Requests on their way down to the redirection. -/

namespace Request

/-- Whether a request starts with a slash if another one does, and with two of them only if that
does, as far as their references are concerned. -/
structure KeepsLead (req seen : Request) : Prop where
  slash : Text.startsWith "/" req.reference = true → Text.startsWith "/" seen.reference = true
  slashes : Text.startsWith "//" seen.reference = true → Text.startsWith "//" req.reference = true

theorem KeepsLead.of_eq {req seen : Request} (h : seen.reference = req.reference) :
    KeepsLead req seen :=
  ⟨fun hs => h ▸ hs, fun hs => h ▸ hs⟩

theorem KeepsLead.refl (req : Request) : KeepsLead req req := .of_eq rfl

theorem KeepsLead.trans {a b c : Request} (h : KeepsLead a b) (h' : KeepsLead b c) :
    KeepsLead a c :=
  ⟨fun hs => h'.slash (h.slash hs), fun hs => h.slashes (h'.slashes hs)⟩

theorem SameParts.keepsLead {req seen : Request} (h : SameParts req seen) : KeepsLead req seen :=
  .of_eq h.reference.symm

/-- Attributes other than the base don't count. -/
theorem keepsLead_set (req : Request) {key : String} (h : key ≠ Attribute.base) (value : String) :
    KeepsLead req (req.set key value) := by
  have hn : Attribute.base ∉ [(key, value)].map (·.1) := by simpa using h.symm
  exact (sameParts_setAll req hn).keepsLead

end Request

open Request (KeepsLead)

/-- A mount point may put a slash behind a reference, which doesn't end in one then. -/
theorem BasePath.keepsLead_apply {b : BasePath} (ht : Text.trimTail (· = '/') b.base = b.base)
    (req : Request) : KeepsLead req (b.apply req) := by
  by_cases hbare : b.IsBare req
  · obtain ⟨-, hr⟩ := apply_of_isBare ht hbare
    have hn : req.reference ≠ "" := by
      rw [req.reference_eq_outer, hbare.2]
      exact fun he => hbare.1 (String.append_eq_empty_iff.mp he).2
    have htrim : Text.trimTail (· = '/') req.reference = req.reference := by
      rw [req.reference_eq_outer, Text.trimTail_append_of_trimmed req.trimTail_outer, hbare.2, ht]
    refine ⟨fun h => ?_, fun h => ?_⟩
    · rw [hr]
      exact Text.startsWith_append h "/"
    · rwa [hr, Text.startsWith_slashes_trimmed htrim hn] at h
  · exact .of_eq (reference_apply ht hbare)

namespace Router

/-- A piece of the path moves to the base, whose slashes at the end don't count. -/
theorem keepsLead_move (req : Request) {piece rest : String} (hp : req.uri.path = piece ++ rest)
    (h : Text.trimTail (· = '/') piece = piece ∨ Text.startsWith "/" rest = true) :
    KeepsLead req { (if piece.isEmpty then req else req.set Attribute.base
      (Text.trimTail (· = '/') req.base ++ piece)) with uri.path := rest } := by
  by_cases hn : piece = ""
  · rw [hn, String.empty_append] at hp
    simp [hn, ← hp, KeepsLead.refl]
  · rw [if_neg (by simpa using hn)]
    rcases h with ht | hs
    · exact (Request.sameParts_move req hp hn ht).keepsLead
    · obtain ⟨t, rfl⟩ := Text.startsWith_iff.mp hs
      have href : req.reference = req.outer ++ piece ++ ("/" ++ t) := by
        rw [req.reference_eq_outer, hp, String.append_assoc]
      have hseen : Request.reference { req.set Attribute.base
          (Text.trimTail (· = '/') req.base ++ piece) with uri.path := "/" ++ t } =
            Text.trimTail (· = '/') (req.outer ++ piece) ++ ("/" ++ t) := by
        rw [Request.reference_eq]
        simp [Request.base, Request.set, Request.outer]
      obtain ⟨hslash, hslashes⟩ := Text.startsWith_trimTail (req.outer ++ piece) t
      rw [← href] at hslash hslashes
      refine ⟨fun h => ?_, fun h => hslashes ?_⟩
      · rw [hseen]
        exact hslash h
      · rwa [hseen] at h

/-- Where slashes are doubled, some of them get lost on the way down. -/
theorem keepsLead_descend (req : Request) (remainder : String) :
    KeepsLead req (descend req remainder) := by
  unfold descend
  dsimp only
  split
  · exact .refl req
  · rename_i lead hd
    have hpath := Text.dropTail?_eq_some.mp hd
    cases ht : Text.dropTail? "/" lead with
    | none =>
      dsimp only
      split
      · exact keepsLead_move req hpath (Or.inl (Text.trimTail_of_dropTail? ht))
      · exact .refl req
    | some piece =>
      rw [Text.dropTail?_eq_some.mp ht, String.append_assoc] at hpath
      dsimp only
      split
      · exact keepsLead_move req hpath (Or.inr (Text.startsWith_iff.mpr ⟨remainder, rfl⟩))
      · exact .refl req

theorem keepsLead_enter {e : Entry} (hb : Attribute.base ∉ e.names) {req seen : Request}
    (h : enter e req = some seen) : KeepsLead req seen := by
  obtain ⟨values, hv, rfl⟩ := Option.map_eq_some_iff.mp h
  have hvalues : Attribute.base ∉ values.map (·.1) := by
    obtain ⟨form, hform, hresolve⟩ := List.exists_of_findSome?_eq_some hv
    exact fun hm => hb (List.mem_flatMap.mpr
      ⟨form, hform, Pattern.mem_names_of_resolve? hresolve _ hm⟩)
  have hset := (Request.sameParts_setAll req hvalues).keepsLead
  dsimp only
  split
  · exact hset.trans (keepsLead_descend _ _)
  · exact hset

end Router

/-- Whether no executor of a filter makes a difference to the reference of a request. -/
def Filter.KeepsReference (f : Filter) : Prop :=
  ∀ extension executor, f.registry.executor? extension = some executor →
    ∀ tally invocation req req', executor.before tally invocation req = .continue req' →
      req'.reference = req.reference

namespace Handler

/-- The mount point a handler strips from paths. -/
def mount? : Handler → Option BasePath
  | .layer (.basePath b) _ => some b
  | _ => none

/-- Whether a handler by itself doesn't write to the base of a request, apart from what it strips from
the path. -/
structure SparesBase (h : Handler) : Prop where
  writes : Attribute.base ∉ h.writes
  filter : ∀ f, h.filter? = some f → f.KeepsReference
  mount : ∀ b, h.mount? = some b → ∃ path, BasePath.ofPath path = .ok b

/-- Whether nothing in a handler writes to the base of a request, apart from what strips the path. -/
def KeepsBase (h : Handler) : Prop := ∀ node ∈ h.nodes, node.SparesBase

variable {h next last : Handler} {middleware : Middleware} {req req' seen : Request}

/-- Most handlers aren't mounts or filters. -/
theorem SparesBase.of_none (hw : Attribute.base ∉ h.writes) (hf : h.filter? = none)
    (hm : h.mount? = none) : h.SparesBase := by
  refine ⟨hw, fun f h' => ?_, fun b h' => ?_⟩
  · rw [hf] at h'
    cases h'
  · rw [hm] at h'
    cases h'

theorem SparesBase.keepsLead (hs : (layer middleware next).SparesBase)
    (hm : middleware.Passes req req') : KeepsLead req req' := by
  cases middleware with
  | basePath b =>
    obtain ⟨path, hb⟩ := hs.mount b rfl
    obtain rfl := hm
    exact BasePath.keepsLead_apply (BasePath.trimTail_base hb) req
  | basicAuth a =>
    obtain ⟨user, rfl⟩ := BasicAuth.eq_of_authenticate hm
    exact Request.keepsLead_set req (by decide) user
  | attach values =>
    obtain rfl := hm
    exact (Request.sameParts_setAll req hs.writes).keepsLead
  | filter f =>
    obtain ⟨extension, executor, tally, invocation, he, hc⟩ := hm
    exact .of_eq (hs.filter f rfl extension executor he tally invocation req req' hc)
  | applicationRoot =>
    obtain rfl := hm
    exact (sameParts_enterApplication req).keepsLead
  | normalizePath _ | compress _ | staticFiles _ | cacheControl _ | cors _ | assets _ _
  | errorPages _ =>
    obtain rfl := hm
    exact .refl _

/-- A request keeps the start of its reference where it's passed on. -/
theorem Passes.keepsLead (hs : h.SparesBase) (hp : Passes h req next req') : KeepsLead req req' := by
  cases hp with
  | chain c req hm => exact .refl req
  | router hr hh =>
    obtain ⟨e, he, henter⟩ := Router.route?_eq_some hr
    exact Router.keepsLead_enter (fun hm => hs.writes (List.mem_flatMap.mpr ⟨e, he, hm⟩)) henter
  | layer next hm => exact hs.keepsLead hm
  | page next req hp => exact Request.keepsLead_set req (by decide) _

/-- What a request is passed on to writes no more than what passes it on. -/
theorem Passes.keepsBase (hk : h.KeepsBase) (hp : Passes h req next req') : next.KeepsBase := by
  intro node hn
  rcases hp.mem_nodes hn with hm | ⟨e, last, code, page, -, -, rfl⟩
  · exact hk node hm
  · exact .of_none List.not_mem_nil rfl rfl

/-- A request keeps the start of its reference wherever it gets to by being passed on. -/
theorem Reaches.keepsLead (hk : h.KeepsBase) (hr : Reaches h req last seen) :
    KeepsLead req seen := by
  induction hr with
  | refl h req => exact .refl req
  | @step h next last req req' seen hp _ ih =>
    exact (hp.keepsLead (hk h h.self_mem_nodes)).trans (ih (hp.keepsBase hk))

variable {n : NormalizePath} {res : Response}

/-- The location that a client is sent to by a redirection to the path as it should end starts with a
slash, wherever the redirection stands. It starts with two slashes where the reference does so, unless
that's all there is to it, and the path that was requested starts with two slashes then. -/
theorem location_of_reaches (hk : h.KeepsBase)
    (hr : h.Reaches req (.layer (.normalizePath n) next) seen) (hb : req.base = "")
    (hp : Text.startsWith "/" req.uri.path = true) (ha : n.answer? seen = some res) :
    ∃ location, res.headers.get? .location = some location ∧
      Text.startsWith "/" location = true ∧
      (Text.startsWith "//" location = true ↔
        Text.startsWith "//" seen.reference = true ∧ seen.reference ≠ "//") ∧
      (Text.startsWith "//" seen.reference = true → Text.startsWith "//" req.uri.path = true) := by
  have hpath : req.reference = req.uri.path := by
    rw [Request.reference_eq, hb, Text.trimTail_empty, String.empty_append]
  have hlead := hr.keepsLead hk
  rw [n.answer?_eq, Option.map_eq_some_iff] at ha
  obtain ⟨reference, ht, rfl⟩ := ha
  obtain ⟨hslash, hslashes⟩ :=
    NormalizePath.startsWith_of_target? ht (hlead.slash (by rw [hpath, hp]))
  refine ⟨_, Response.get?_redirect _ _, (Uri.startsWith_text _ 1).trans hslash,
    (Bool.eq_iff_iff.mp (Uri.startsWith_text _ 2)).trans hslashes, fun h => ?_⟩
  rw [← hpath]
  exact hlead.slashes h

open VirtualHost (shopEntry)

/-- A redirection below a mount point and a router. -/
def shopRedirection : Handler :=
  .layer (.basePath ⟨"/app"⟩) (.layer .applicationRoot
    (.router { entries := [shopEntry] } [.layer (.normalizePath {}) notFound]))

/-- The request that the redirection gets. -/
def chairRequest : Request where
  uri := ⟨"/chair", some "size=2"⟩
  attributes := ⟨[("rr", "chair"), (Attribute.base, "/app/shop"), (Attribute.root, "/app")]⟩

theorem keepsBase_shopRedirection : shopRedirection.KeepsBase := by
  intro node hn
  simp only [shopRedirection, nodes, nodesAll, notFound, List.append_nil, List.mem_cons,
    List.not_mem_nil, or_false] at hn
  rcases hn with rfl | rfl | rfl | rfl | rfl
  · refine ⟨List.not_mem_nil, fun f hf => ?_, fun b hb => ⟨"/app/", ?_⟩⟩
    · cases hf
    · rw [← Option.some.inj hb]
      rfl
  · exact .of_none List.not_mem_nil rfl rfl
  · exact .of_none (by decide +kernel) rfl rfl
  · exact .of_none List.not_mem_nil rfl rfl
  · exact .of_none List.not_mem_nil rfl rfl

theorem reaches_shopRedirection : shopRedirection.Reaches
    { uri := ⟨"/app/shop/chair", some "size=2"⟩ } (.layer (.normalizePath {}) notFound)
    chairRequest := by
  have henter : Router.enter shopEntry (BasePath.apply ⟨"/app"⟩
      { uri := ⟨"/app/shop/chair", some "size=2"⟩ }).enterApplication = some chairRequest := by
    decide +kernel
  have hroute : Router.route? { entries := [shopEntry] } 0 0 (BasePath.apply ⟨"/app"⟩
      { uri := ⟨"/app/shop/chair", some "size=2"⟩ }).enterApplication =
        some ⟨0, chairRequest, false⟩ :=
    Router.route?_of_matching (by decide +kernel) (by decide +kernel) henter 0 0
  exact .step (.layer _ rfl) (.step (.layer _ rfl) (.step (.router hroute rfl) (.refl _ _)))

theorem location_of_reaches_shop : ∃ res location,
    NormalizePath.answer? {} chairRequest = some res ∧
      res.headers.get? .location = some location ∧
      Text.startsWith "/" location = true ∧ Text.startsWith "//" location = false := by
  have ha : (NormalizePath.answer? {} chairRequest).isSome = true := by decide +kernel
  obtain ⟨res, hres⟩ := Option.isSome_iff_exists.mp ha
  obtain ⟨location, hl, hslash, hslashes, -⟩ := location_of_reaches keepsBase_shopRedirection
    reaches_shopRedirection (by decide +kernel) (by decide) hres
  refine ⟨res, location, hres, hl, hslash, ?_⟩
  rw [Bool.eq_false_iff, ne_eq, hslashes]
  exact fun h => absurd h.1 (by decide +kernel)

/-- The handler of a node that adds a slash. -/
def addSlash : Handler :=
  .layer (.normalizePath { slash := .append, status := .movedPermanently, skipFiles := false })
    .notFound

theorem gives_addSlash (prebuilt : ResolvePrebuilt) (uri : String) (s : Assembly.State) :
    (Node.addSlash.resolve prebuilt uri).Gives s (.handler addSlash) s :=
  Assembly.gives_pure.mpr ⟨rfl, rfl⟩

theorem run_addSlash (jump : Jump) (w : World) :
    addSlash.run jump { uri := ⟨"//example.com", none⟩ } w =
      some (.redirect .movedPermanently (Uri.ofParts "//example.com/" none).text, w) := by
  have ht : NormalizePath.target? { slash := .append, status := .movedPermanently, skipFiles := false }
      { uri := ⟨"//example.com", none⟩ } = some "//example.com/" := by decide +kernel
  rw [addSlash, Handler.run, Middleware.serve, NormalizePath.answer?_eq, ht]
  rfl

/-- A path that starts with two slashes leads to another host. -/
theorem not_location_on_host :
    ¬ ∀ (prebuilt : ResolvePrebuilt) (uri : String) (s t : Assembly.State) (handler : Handler),
      (Node.addSlash.resolve prebuilt uri).Gives s (.handler handler) t →
      ∀ (req : Request), req.base = "" → Text.startsWith "/" req.uri.path = true →
      ∀ (jump : Jump) (w w' : World) (res : Response) (location : String),
        handler.run jump req w = some (res, w') → res.headers.get? .location = some location →
          Text.startsWith "/" location = true ∧ Text.startsWith "//" location = false := by
  intro h
  obtain ⟨-, hl⟩ := h (fun _ _ => pure .hidden) "/" ⟨{ name := "app", root := "." }, {}⟩ _ _
    (gives_addSlash _ _ _) { uri := ⟨"//example.com", none⟩ } (by decide +kernel) (by decide)
    (fun _ _ => pure {}) {} _ _ _ (run_addSlash _ _) (Response.get?_redirect _ _)
  exact absurd ((Uri.startsWith_text _ 2).symm.trans hl) (by decide)

end Handler

end RequestRouting
