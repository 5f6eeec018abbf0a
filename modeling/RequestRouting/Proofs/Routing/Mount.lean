import RequestRouting.Proofs.Routing.Slashes
import RequestRouting.Proofs.Routing.Stack

/-!
# Mount points

A virtual host strips the mount point of the mount it selects, unless the request is for the mount
point without its slash, which is redirected. So the reference stays the same from the virtual host
down to the leaf that is selected.
-/

namespace RequestRouting

open Request (SameParts)

/-- A mount strips its mount point, which ends in a slash. -/
theorem Mount.ofPath_eq_ok {path : String} {inner : Handler} {m : Mount}
    (h : Mount.ofPath path inner = .ok m) : Text.endsWith "/" m.point = true ∧
      m.handler = .layer (.basePath ⟨m.bare⟩) inner := by
  unfold Mount.ofPath at h
  dsimp only at h
  generalize hp : (if Text.endsWith "/" (clean path) then clean path else clean path ++ "/") = point
    at h
  have hend : Text.endsWith "/" point = true := by
    rw [← hp]
    split
    · assumption
    · exact Text.endsWith_iff.mpr ⟨clean path, rfl⟩
  unfold BasePath.ofPath at h
  cases hr : Route.ofPath point .startsWith with
  | error e => simp [bind, Except.bind, hr] at h
  | ok r =>
    obtain rfl : ⟨point, .layer (.basePath ⟨Text.trimTail (· = '/') r.path⟩) inner⟩ = m := by
      simpa [bind, Except.bind, pure, Except.pure, hr] using h
    exact ⟨hend, by rw [Mount.bare, Route.eq_of_ofPath hr]⟩

/-- A mount point continues with a slash behind the mount point without it. -/
theorem Mount.exists_slash {m : Mount} (he : Text.endsWith "/" m.point = true) :
    ∃ rest, m.point = m.bare ++ "/" ++ rest := by
  obtain ⟨before, hb⟩ := Text.endsWith_iff.mp he
  obtain ⟨k, hk⟩ := Text.exists_slashes m.point
  cases k with
  | zero =>
    rw [Text.slashes_zero, String.append_empty] at hk
    exact absurd hb (Text.dropTail?_eq_none.mp (Text.dropTail?_of_trimmed hk.symm) before)
  | succ k =>
    rw [Text.slashes_succ, ← String.append_assoc] at hk
    exact ⟨Text.slashes k, hk⟩

/-- A path below a mount point isn't the mount point without its slash. -/
theorem Mount.ne_bare {m : Mount} {path : String} (he : Text.endsWith "/" m.point = true)
    (hs : Text.startsWith m.point path = true) : path ≠ m.bare := by
  obtain ⟨rest, hrest⟩ := Mount.exists_slash he
  obtain ⟨below, rfl⟩ := Text.startsWith_iff.mp hs
  intro h
  have hl := congrArg (·.toList.length) (hrest ▸ h)
  simp at hl

/-- The base of a request that comes to a mount without one is the mount point without its slash. -/
theorem Mount.base_apply {m : Mount} {req : Request} (he : Text.endsWith "/" m.point = true)
    (hs : Text.startsWith m.point req.uri.path = true)
    (hb : req.attributes.get? Attribute.base = none) :
    ((BasePath.apply ⟨m.bare⟩ req).attributes.get? Attribute.base).getD "" = m.bare := by
  obtain ⟨rest, hrest⟩ := Mount.exists_slash he
  obtain ⟨below, hpath⟩ := Text.startsWith_iff.mp hs
  unfold BasePath.apply
  by_cases hn : m.bare = ""
  · simp [hn, hb]
  · have hd : Text.dropLead? m.bare req.uri.path = some ("/" ++ (rest ++ below)) := by
      rw [Text.dropLead?_eq_some, hpath, hrest]
      simp only [String.append_assoc]
    have hslash : Text.startsWith "/" ("/" ++ (rest ++ below)) = true :=
      Text.startsWith_iff.mpr ⟨_, rfl⟩
    simp [hn, hd, hslash, hb, Request.set]

namespace VirtualHost

/-- A handler a request is given to is that of a mount the path of the request is below. -/
theorem decide_eq_handle {req : Request} {mounts : List Mount} {handler : Handler}
    (h : decide req mounts = .handle handler) :
    ∃ m ∈ mounts, handler = m.handler ∧ Text.startsWith m.point req.uri.path = true := by
  induction mounts with
  | nil => simp [decide] at h
  | cons m rest ih =>
    simp only [decide] at h
    split at h
    · rename_i hs
      obtain rfl := Decision.handle.inj h
      exact ⟨m, List.mem_cons_self, rfl, hs⟩
    · split at h
      · cases h
      · obtain ⟨m', hm, hh⟩ := ih h
        exact ⟨m', List.mem_cons_of_mem _ hm, hh⟩

/-- A request that is redirected is for a mount point without its slash. -/
theorem decide_eq_redirect {req : Request} {mounts : List Mount} {res : Response}
    (h : decide req mounts = .redirect res) :
    ∃ m ∈ mounts, req.uri.path = m.bare ∧ res = .redirect .movedPermanently
      (Uri.ofParts m.point req.uri.query).text := by
  induction mounts with
  | nil => simp [decide] at h
  | cons m rest ih =>
    simp only [decide] at h
    split at h
    · cases h
    · split at h
      · rename_i hb
        simp only [Bool.and_eq_true, decide_eq_true_eq] at hb
        exact ⟨m, List.mem_cons_self, hb.2, (Decision.redirect.inj h).symm⟩
      · obtain ⟨m', hm, hh⟩ := ih h
        exact ⟨m', List.mem_cons_of_mem _ hm, hh⟩

/-- A virtual host selects a mount for a request, and the stack that is mounted selects a leaf. -/
def Selects (host : VirtualHost) (req : Request) (w : World) (leaf : Handler) (req' : Request)
    (w' : World) : Prop :=
  ∃ b inner, decide req host.mounts = .handle (.layer (.basePath b) inner) ∧
    inner.Selects (b.apply req) w leaf req' w'

/-- Whatever leaf a request is handed to by a virtual host with mounted stacks, it comes with the
reference, method, query, header and body that were requested, and the answer is what the leaf makes
of it. If it's handed to none, the answer is 404, or a redirection from a mount point without its
slash. -/
theorem sameParts_of_selects (host : VirtualHost)
    (hm : ∀ m ∈ host.mounts, ∃ path inner, Mount.ofPath path inner = .ok m ∧ inner.IsStack)
    (fuel : Nat) (req : Request) (w : World) :
    (∀ leaf req' w', host.Selects req w leaf req' w' →
      SameParts req req' ∧ host.serve fuel req w = leaf.run (World.jump fuel) req' w') ∧
    ((∀ leaf req' w', ¬host.Selects req w leaf req' w') →
      ∃ res w', host.serve fuel req w = some (res, w') ∧ (res = .ofStatus .notFound ∨
        ∃ m ∈ host.mounts, req.uri.path = m.bare ∧ res = .redirect .movedPermanently
          (Uri.ofParts m.point req.uri.query).text)) := by
  constructor
  · rintro leaf req' w' ⟨b, inner, hd, hs⟩
    obtain ⟨m, hmem, hh, hstart⟩ := decide_eq_handle hd
    obtain ⟨path, inner', hok, hstack⟩ := hm m hmem
    obtain ⟨hend, hm'⟩ := Mount.ofPath_eq_ok hok
    obtain ⟨rfl, rfl⟩ : b = ⟨m.bare⟩ ∧ inner = inner' := by
      simpa using hh.trans hm'
    have hb := BasePath.sameParts_apply ⟨m.bare⟩ req (Text.trimTail_trimTail _ _)
      (Mount.ne_bare hend hstart)
    refine ⟨hb.trans (hs.sameParts hstack), ?_⟩
    rw [serve, hd]
    exact hs.run (World.jump fuel)
  · intro hn
    cases hd : decide req host.mounts with
    | handle handler =>
      obtain ⟨m, hmem, rfl, -⟩ := decide_eq_handle hd
      obtain ⟨path, inner, hok, -⟩ := hm m hmem
      rw [(Mount.ofPath_eq_ok hok).2] at hd
      obtain ⟨w', hrun⟩ := inner.run_of_not_selects (BasePath.apply ⟨m.bare⟩ req) w
        (World.jump fuel) fun leaf req' w' hs => hn leaf req' w' ⟨_, _, hd, hs⟩
      exact ⟨_, w', by rw [serve, hd]; exact hrun, Or.inl rfl⟩
    | redirect res => exact ⟨res, w, by rw [serve, hd]; rfl, Or.inr (decide_eq_redirect hd)⟩
    | unknown => exact ⟨_, w, by rw [serve, hd]; rfl, Or.inl rfl⟩

/-- A route for everything below a path. -/
def shopEntry : Router.Entry where
  route := ⟨"/shop/", .startsWith⟩
  matcher := ⟨["/shop/".toList.map .char, "/shop/".toList.map .char ++ [.catchAll "rr".toList []]]⟩

/-- A route for everything below an item. -/
def itemEntry : Router.Entry where
  route := ⟨"/\x7bitem\x7d", .startsWith⟩
  matcher := ⟨[[.char '/', .param "item".toList []],
    [.char '/', .param "item".toList [], .char '/'],
    [.char '/', .param "item".toList [], .char '/', .catchAll "rr".toList []]]⟩

/-- A stack of two routers. -/
def shopStack : Handler :=
  .layer .applicationRoot (.router { entries := [shopEntry] }
    [.router { mode := .last, entries := [itemEntry] } [.status .ok]])

theorem isStack_shopStack : shopStack.IsStack := by
  have hs : shopEntry.IsClean := by
    exact ⟨⟨"shop//*", by decide +kernel⟩, by decide +kernel, by decide +kernel, by decide +kernel⟩
  have hi : itemEntry.IsClean := by
    exact ⟨⟨"/\x7bitem\x7d*", by decide +kernel⟩, by decide +kernel, by decide +kernel,
      by decide +kernel⟩
  refine .root (.router (by simpa using hs) ?_)
  simp only [List.mem_singleton, forall_eq]
  refine .router (by simpa using hi) ?_
  simpa using .leaf rfl

/-- A virtual host with the stack below a mount point. -/
def shopHost : VirtualHost := ⟨[⟨"/app/", .layer (.basePath ⟨"/app"⟩) shopStack⟩]⟩

theorem isStack_shopHost :
    ∀ m ∈ shopHost.mounts, ∃ path inner, Mount.ofPath path inner = .ok m ∧ inner.IsStack := by
  simp only [shopHost, List.mem_singleton, forall_eq]
  refine ⟨"//app", shopStack, ?_, isStack_shopStack⟩
  have hc : clean "//app" = "/app" := rfl
  have hr : Route.ofPath "/app/" .startsWith = .ok ⟨"/app/", .startsWith⟩ := rfl
  have ht : Text.trimTail (· = '/') "/app/" = "/app" := rfl
  have he : Text.endsWith "/" "/app" = false := rfl
  have ha : "/app" ++ "/" = "/app/" := by decide
  simp [Mount.ofPath, BasePath.ofPath, hc, he, ha, hr, ht, bind, Except.bind, pure, Except.pure]

/-- A request that another mount point was stripped from. -/
def shopRequest : Request where
  method := .post
  uri := ⟨"/app/shop/chair//red", some "size=2"⟩
  attributes := ⟨[(Attribute.base, "/site/")]⟩

/-- The request that the second router of the stack gets. -/
def shelfRequest : Request where
  method := .post
  uri := ⟨"/chair//red", some "size=2"⟩
  attributes := ⟨[("rr", "chair//red"), (Attribute.base, "/site/app/shop"),
    (Attribute.root, "/site/app")]⟩

/-- The request that the leaf of the stack gets, with the values of the variables. -/
def soldRequest : Request where
  method := .post
  uri := ⟨"//red", some "size=2"⟩
  attributes := ⟨[("item", "chair"), ("rr", "/red"), (Attribute.base, "/site/app/shop/chair"),
    (Attribute.root, "/site/app")]⟩

theorem selects_shopHost : ∃ w, shopHost.Selects shopRequest {} (.status .ok) soldRequest w := by
  have hshop : Router.enter shopEntry (BasePath.apply ⟨"/app"⟩ shopRequest).enterApplication =
      some shelfRequest := by decide +kernel
  have hitem : Router.enter itemEntry shelfRequest = some soldRequest := by decide +kernel
  have hinner (w : World) : ∃ w', Handler.Selects
      (.router { mode := .last, entries := [itemEntry] } [.status .ok]) shelfRequest w
      (.status .ok) soldRequest w' := by
    refine ⟨_, .router (s := ⟨0, soldRequest, false⟩) ?_ rfl (.leaf rfl _ _)⟩
    exact Router.route?_of_matching (by decide +kernel) (by decide +kernel) hitem _ _
  obtain ⟨w, hw⟩ := hinner _
  refine ⟨w, ⟨"/app"⟩, shopStack, rfl, .root (.router (s := ⟨0, shelfRequest, false⟩) ?_ rfl hw)⟩
  exact Router.route?_of_matching (by decide +kernel) (by decide +kernel) hshop _ _

theorem sameParts_of_selects_shop :
    (∀ m ∈ shopHost.mounts, ∃ path inner, Mount.ofPath path inner = .ok m ∧ inner.IsStack) ∧
      ∃ w, shopHost.Selects shopRequest {} (.status .ok) soldRequest w ∧
        SameParts shopRequest soldRequest ∧ shopHost.serve 0 shopRequest {} =
          (Handler.status .ok).run (World.jump 0) soldRequest w := by
  obtain ⟨w, hs⟩ := selects_shopHost
  exact ⟨isStack_shopHost, w, hs,
    (sameParts_of_selects shopHost isStack_shopHost 0 shopRequest {}).1 _ _ _ hs⟩

end VirtualHost

end RequestRouting
