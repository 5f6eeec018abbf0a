import RequestRouting.Proofs.Assembly.Origin

/-!
# Captured requests

A request is passed on in an application until it's answered, or forwarded to another path of the
application, where it starts again at the root router. However often that happens, all handlers can
tell what the client requested, and the root router gets the request at the mount point again.
-/

namespace RequestRouting

open Request (SameOrigin)

namespace Assembly

/-- A request on its way through handlers: it's passed on, from a slot too, and forwarded by
captures and dispatches that record where it comes from, to one path after another, but not into
other applications. -/
inductive Journey (w : World) (start : Handler) (client : Request) :
    List String → Handler → Request → Prop where
  | start : Journey w start client [] start client
  | pass {paths : List String} {h next : Handler} {req req' : Request}
      (hj : Journey w start client paths h req) (hp : h.Passes req next req') :
      Journey w start client paths next req'
  | slot {paths : List String} {place : Nat} {h : Handler} {req : Request}
      (hj : Journey w start client paths (.slot place) req)
      (hh : w.handler? (.slot place) = some h) : Journey w start client paths h req
  | forward {paths : List String} {f : Forwarder} {h : Handler} {req req' : Request}
      (hj : Journey w start client paths f.handler req) (hr : f.record = true)
      (ha : f.application? = none) (hf : f.forward? req = some req')
      (hh : w.handler? f.target = some h) :
      Journey w start client (paths ++ [f.path req]) h req'

/-- What a request tells of the client's, in an application that is mounted, after it was forwarded
to the given paths. -/
structure Comes (m : Mount) (client : Request) (paths : List String) (seen : Request) : Prop where
  root : seen.attributes.get? Attribute.root = some m.bare
  captured : seen.attributes.get? Attribute.captured =
    if paths = [] then none else some client.reference
  reference : paths = [] → seen.reference = client.reference

namespace Comes

variable {m : Mount} {client seen next : Request} {paths : List String}

theorem sameOrigin (h : Comes m client paths seen) (hs : SameOrigin seen next) :
    Comes m client paths next :=
  ⟨hs.root.trans h.root, hs.captured.trans h.captured, fun hp => hs.reference.trans (h.reference hp)⟩

/-- What was recorded first is kept, and the base is the mount point again. -/
theorem forward (h : Comes m client paths seen) {f : Forwarder}
    (hl : ∀ name ∈ f.locals.map (·.1), ¬IsReserved name) (hr : f.record = true)
    (ha : f.application? = none) (hf : f.forward? seen = some next) :
    Comes m client (paths ++ [f.path seen]) next ∧
      next.attributes.get? Attribute.base = some m.bare ∧
      next.uri.path = f.path seen ∧ next.reference = m.bare ++ f.path seen := by
  obtain ⟨hcaptured, hroot, hbase, hpath⟩ := f.origin_of_forward? hl ha seen hr hf
  rw [h.root, Option.getD_some] at hbase
  have hrecorded : (seen.attributes.get? Attribute.captured).getD seen.reference =
      client.reference := by
    rw [h.captured]
    split
    · rename_i hp
      exact h.reference hp
    · rfl
  refine ⟨⟨hroot.trans h.root, ?_, by simp⟩, hbase, hpath, ?_⟩
  · rw [hcaptured, hrecorded, if_neg (by simp)]
  · rw [Request.reference_eq, Request.base, hbase, hpath, Option.getD_some, Mount.bare,
      Text.trimTail_trimTail]

/-- A request from outside enters an application with the reference that the client requested. -/
theorem enter (he : Text.endsWith "/" m.point = true)
    (hs : Text.startsWith m.point client.uri.path = true)
    (hc : ∀ name, IsReserved name → client.attributes.get? name = none) :
    Comes m client [] (BasePath.apply ⟨m.bare⟩ client).enterApplication := by
  have hparts := BasePath.sameParts_apply ⟨m.bare⟩ client (Text.trimTail_trimTail _ _)
    (Mount.ne_bare he hs)
  have hbase := Mount.base_apply he hs (hc _ (by decide))
  have hn : Attribute.captured ≠ Attribute.root := by decide
  refine ⟨?_, ?_, fun _ => (hparts.trans (Handler.sameParts_enterApplication _)).reference.symm⟩
  · rw [Request.enterApplication, hbase]
    exact Keyed.get?_insert_self _ _ _
  · rw [if_pos rfl, Request.enterApplication]
    refine (Keyed.get?_insert_of_ne _ hn _).trans ?_
    exact (BasePath.get?_apply ⟨m.bare⟩ client (by decide)).trans (hc _ (by decide))

end Comes

/-- A handler in an application: requests keep their origin in its tree, which refers to what the
context of the application knows. -/
structure IsPart (c : Context) (h : Handler) : Prop where
  tame : h.IsTame
  knows : ∀ link ∈ h.links, c.Knows link

theorem IsPart.passes {c : Context} {h next : Handler} {req req' : Request} (hp : IsPart c h)
    (hs : h.Passes req next req') : IsPart c next :=
  ⟨hp.tame.passes hs, fun link hl => hp.knows link (hs.mem_links hl)⟩

/-- Whatever forwards requests in an application knows its slot. -/
theorem IsPart.place_eq {c : Context} {f : Forwarder} (hp : IsPart c f.handler) :
    f.place = c.application := by
  cases f with
  | capture capture application => exact hp.knows _ (List.mem_singleton_self _)
  | dispatch d uri table application => exact (hp.knows _ (List.mem_singleton_self _)).1

theorem IsPart.not_isReserved {c : Context} {f : Forwarder} (hp : IsPart c f.handler) :
    ∀ name ∈ f.locals.map (·.1), ¬IsReserved name := by
  rw [← f.names_handler]
  exact (hp.tame.origin _ (Handler.self_mem_nodes _)).names

theorem IsResource.isPart {c : Context} {d : Documents} {h : Handler} (hr : IsResource d h) :
    IsPart c h := by
  have hnodes : ∀ node ∈ h.nodes, node.IsInner ∧ node.names = [] ∧ node.filter? = none ∧
      node.entries = [] := by
    rcases hr with rfl | ⟨compress, rfl⟩ <;>
      simp [Handler.nodes, Handler.IsInner, Handler.names, Handler.filter?, Handler.entries,
        Middleware.isOuter]
  refine ⟨⟨fun node hm => (hnodes node hm).1, fun node hm => ?_, fun node hm e he => ?_⟩,
    by simp [hr.links_eq]⟩
  · obtain ⟨-, hnames, hfilter, -⟩ := hnodes node hm
    exact ⟨by simp [hnames], by simp [hfilter]⟩
  · obtain ⟨-, -, -, hentries⟩ := hnodes node hm
    simp [hentries] at he

section Parts

variable {w₀ w : World} {config : Config} {app : Application} {s t nodes done : State}
  {leaves : List Handler} {mount : Option (String × Nat)} {router : Router}
  {handlers : List Handler} {pages : Keyed Nat Capture}

/-- The handlers behind what records the mount point of an application are parts of it. -/
theorem IsAssembled.isPart
    (hp : IsAssembled w₀ config app t leaves nodes done mount router handlers pages)
    (hs : s.Building w₀) (h : (application config).Gives s app t)
    (ho : ∀ node ∈ app.handler.nodes, node.SparesOrigin)
    (hr : ∀ node ∈ app.handler.nodes, node.SparesRemainder) :
    IsPart nodes.context (rootHandler t.context.application (.router router handlers) pages) ∧
      IsPart nodes.context (.router router handlers) := by
  obtain ⟨inner, happ, hinside⟩ := isInside_application hs h
  obtain rfl : rootHandler t.context.application (.router router handlers) pages = inner := by
    simpa [hp.root] using happ
  have hknows : ∀ link ∈ app.handler.links, nodes.context.Knows link := hp.knows_root
  rw [hp.root] at ho hr hknows
  have hroot : IsPart nodes.context
      (rootHandler t.context.application (.router router handlers) pages) :=
    ⟨⟨hinside, fun node hn => ho node (List.mem_cons_of_mem _ hn),
      fun node hn => hr node (List.mem_cons_of_mem _ hn)⟩,
      fun link hl => hknows link (List.mem_append_right _ hl)⟩
  refine ⟨hroot, hroot.tame.of_nodes fun node hn => ?_, hp.knows_handlers⟩
  unfold rootHandler
  split
  · exact hn
  · exact List.mem_cons_of_mem _ hn

variable (w) in
/-- A slot of an application has what it had when the application was assembled. -/
theorem handler?_of_keptBy (hw : t.world.KeptBy w) {place : Nat} {slot : Slot Handler}
    (hs : t.world.slots[place]? = some slot) : w.handler? (.slot place) = slot.get? := by
  rw [World.handler?, hw.slots _ _ hs, Option.bind_some]

/-- Whatever forwards requests in an application without leaving it forwards them to the root
router. -/
theorem IsAssembled.handler?_target
    (hp : IsAssembled w₀ config app t leaves nodes done mount router handlers pages)
    (hw : t.world.KeptBy w) {f : Forwarder} (hf : IsPart nodes.context f.handler)
    (ha : f.application? = none) : w.handler? f.target = some (.router router handlers) := by
  rw [Forwarder.target_eq ha, hf.place_eq]
  exact handler?_of_keptBy w hw hp.getElem?_application

/-- What a request on its way has got to: the mount, the application, or a part of it. -/
inductive Situation (c : Context) (m : Mount) (app : Application) (client : Request) :
    List String → Handler → Request → Prop where
  | mounted : Situation c m app client [] m.handler client
  | stripped : Situation c m app client [] app.handler (BasePath.apply ⟨m.bare⟩ client)
  | inside {paths : List String} {h : Handler} {seen : Request} (hp : IsPart c h)
      (hc : Comes m client paths seen) : Situation c m app client paths h seen

/-- Every step of the way leads to one of these. -/
theorem situation_of_journey {m : Mount} {client : Request}
    (hp : IsAssembled w₀ config app t leaves nodes done mount router handlers pages)
    (hroot : IsPart nodes.context
      (rootHandler t.context.application (.router router handlers) pages))
    (hrouter : IsPart nodes.context (.router router handlers)) (hw : t.world.KeptBy w)
    (hm : m.handler = .layer (.basePath ⟨m.bare⟩) app.handler)
    (hc : Comes m client [] (BasePath.apply ⟨m.bare⟩ client).enterApplication)
    {paths : List String} {x : Handler} {seen : Request}
    (hj : Journey w m.handler client paths x seen) :
    Situation nodes.context m app client paths x seen := by
  have happ := hp.root
  induction hj with
  | start => exact .mounted
  | pass _ hs ih =>
    cases ih with
    | mounted =>
      rw [hm] at hs
      cases hs with
      | layer _ hpass =>
        obtain rfl := hpass
        exact .stripped
    | stripped =>
      rw [happ] at hs
      cases hs with
      | layer _ hpass =>
        obtain rfl := hpass
        exact .inside hroot hc
    | inside hpart hcomes =>
      exact .inside (hpart.passes hs) (hcomes.sameOrigin (hpart.tame.sameOrigin hs))
  | @slot paths place h req _ hh ih =>
    generalize hx : Handler.slot place = x at ih
    cases ih with
    | mounted => exact absurd (hx.trans hm) nofun
    | stripped => exact absurd (hx.trans happ) nofun
    | inside hpart hcomes =>
      subst hx
      obtain ⟨resource, d, hslot, hr⟩ :=
        hp.exists_resource (hpart.knows _ (List.mem_singleton_self _))
      obtain rfl := Option.some.inj (hh.symm.trans (handler?_of_keptBy w hw hslot))
      exact .inside hr.isPart hcomes
  | @forward paths f h req req' _ hr ha hf hh ih =>
    generalize hx : f.handler = x at ih
    cases ih with
    | mounted => exact absurd (hx.trans hm) (by cases f <;> exact nofun)
    | stripped => exact absurd (hx.trans happ) (by cases f <;> exact nofun)
    | inside hpart hcomes =>
      subst hx
      obtain rfl := Option.some.inj (hh.symm.trans (hp.handler?_target hw hpart ha))
      exact .inside hrouter (hcomes.forward hpart.not_isReserved hr ha hf).1

end Parts

/-- However often a request from outside is forwarded within an application, what it's passed on to
from then on sees the reference that the client requested. Wherever it's forwarded, it's handed to
the root router, with the mount point without its slash for its base, and the target path behind
that for its reference. That holds of all applications, provided that nothing configured in them
writes to reserved names, and that no prefix route has a variable with the name of the remainder. -/
theorem captured_of_journey {w₀ : World} {config : Config} {s t : State} {app : Application}
    {m : Mount} {point : String} (hs : s.Building w₀) (h : (application config).Gives s app t)
    (hm : Mount.ofPath point app.handler = .ok m)
    (ho : ∀ node ∈ app.handler.nodes, node.SparesOrigin)
    (hr : ∀ node ∈ app.handler.nodes, node.SparesRemainder) :
    ∃ router handlers pages, app.handler = .layer .applicationRoot
        (rootHandler t.context.application (.router router handlers) pages) ∧
      ∀ (w : World) (client : Request), t.world.KeptBy w →
        (∀ name, IsReserved name → client.attributes.get? name = none) →
        Text.startsWith m.point client.uri.path = true →
        ∀ paths x seen, Journey w m.handler client paths x seen →
          (paths ≠ [] →
            seen.attributes.get? Attribute.captured = some client.reference) ∧
          ∀ (f : Forwarder) next, x = f.handler → f.record = true → f.application? = none →
            f.forward? seen = some next →
              next.attributes.get? Attribute.captured = some client.reference ∧
              next.attributes.get? Attribute.base = some m.bare ∧
              next.uri.path = f.path seen ∧ next.reference = m.bare ++ f.path seen ∧
              ∀ fuel, f.IsReady w → x.run (World.jump (fuel + 1)) seen w =
                (Handler.router router handlers).run (World.jump fuel) next w := by
  obtain ⟨leaves, nodes, done, mount, router, handlers, pages, hp⟩ := exists_parts hs h
  obtain ⟨hroot, hrouter⟩ := hp.isPart hs h ho hr
  obtain ⟨hend, hmount⟩ := Mount.ofPath_eq_ok hm
  refine ⟨router, handlers, pages, hp.root, fun w client hw hclient hbelow paths x seen hj => ?_⟩
  have hsituation := situation_of_journey hp hroot hrouter hw hmount
    (Comes.enter hend hbelow hclient) hj
  constructor
  · intro hn
    cases hsituation with
    | mounted => exact absurd rfl hn
    | stripped => exact absurd rfl hn
    | inside _ hcomes => rw [hcomes.captured, if_neg hn]
  · rintro f next hx hrecord ha hf
    cases hsituation with
    | mounted => exact absurd (hx.symm.trans hmount) (by cases f <;> exact nofun)
    | stripped => exact absurd (hx.symm.trans hp.root) (by cases f <;> exact nofun)
    | inside hpart hcomes =>
      subst hx
      obtain ⟨hnext, hbase, hpath, hreference⟩ :=
        hcomes.forward hpart.not_isReserved hrecord ha hf
      refine ⟨hnext.captured.trans (if_neg (by simp)), hbase, hpath, hreference,
        fun fuel hready => ?_⟩
      rw [f.run_handler seen _ hready, hf]
      dsimp only
      rw [World.jump_succ, hp.handler?_target hw hpart ha]

/-- An application whose router for the pages of an album, which a variable stands for, captures all
of them into another page. -/
def albumConfig (name : String) : Config where
  routes := ⟨[("/a/\x7b" ++ name ++ "\x7d/*",
      .node (.router { routes := ⟨[("/*", .node (.capture { uri := "/t/" }))]⟩ })),
    ("/t/", .node (.capture { uri := "/u/" })),
    ("/u/", .node (.status { code := 204 }))]⟩

/-- A request for a page of an album, whose path has a doubled slash. -/
def albumRequest : Request where
  uri := ⟨"/app/a/b//b", none⟩

/-- Follows a request on its way for a number of steps, in the first turn of every router. Stops at
what answers requests, or passes them on in other ways. -/
def follow (w : World) : Nat → List String → Handler → Request →
    Option (List String × Handler × Request)
  | 0, paths, h, req => some (paths, h, req)
  | fuel + 1, paths, .layer (.basePath b) next, req => follow w fuel paths next (b.apply req)
  | fuel + 1, paths, .layer .applicationRoot next, req =>
    follow w fuel paths next req.enterApplication
  | fuel + 1, paths, .router r handlers, req => do
    let s ← r.route? 0 0 req
    follow w fuel paths (← handlers[s.place]?) s.req
  | fuel + 1, paths, .capture c application, req => do
    let f := Forwarder.capture c application
    if f.record ∧ f.application? = none then
      let next ← f.forward? req
      follow w fuel (paths ++ [f.path req]) (← w.handler? f.target) next
    else none
  | _, _, _, _ => none

theorem Journey.follow {w : World} {start : Handler} {client : Request} {fuel : Nat}
    {paths paths' : List String} {h h' : Handler} {req req' : Request}
    (hj : Journey w start client paths h req)
    (hf : Assembly.follow w fuel paths h req = some (paths', h', req')) :
    Journey w start client paths' h' req' := by
  fun_induction Assembly.follow w fuel paths h req with
  | case1 paths h req =>
    cases hf
    exact hj
  | case2 fuel paths b next req ih => exact ih (hj.pass (.layer next rfl)) hf
  | case3 fuel paths next req ih => exact ih (hj.pass (.layer next rfl)) hf
  | case4 fuel paths r handlers req ih =>
    obtain ⟨s, hs, hf⟩ := Option.bind_eq_some_iff.mp hf
    obtain ⟨next, hn, hf⟩ := Option.bind_eq_some_iff.mp hf
    exact ih s next (hj.pass (.router hs hn)) hf
  | case5 fuel paths c application req f hstays ih =>
    obtain ⟨next, hn, hf⟩ := Option.bind_eq_some_iff.mp hf
    obtain ⟨h, ht, hf⟩ := Option.bind_eq_some_iff.mp hf
    exact ih next h (hj.forward hstays.1 hstays.2 hn ht) hf
  | case6 | case7 => cases hf

/-- A page that a request gets to in an application, mounted in the state it's left in. -/
structure Visit where
  app : Application
  state : State
  mount : Mount
  page : Forwarder
  seen : Request

/-- The page that the request for the page of an album is forwarded to first. -/
def albumVisit? (name : String) : Option Visit := do
  let (app, state) ← assembled? (albumConfig name) {}
  let mount ← (Mount.ofPath "/app/" app.handler).toOption
  let (paths, page, seen) ← follow state.world 6 [] mount.handler albumRequest
  match page with
  | .capture page place =>
    if paths = ["/t/"] then some ⟨app, state, mount, .capture page place, seen⟩ else none
  | _ => none

theorem journey_of_albumVisit? {name : String} {v : Visit} (h : albumVisit? name = some v) :
    (application (albumConfig name)).Gives (freshState {}) v.app v.state ∧
      Mount.ofPath "/app/" v.app.handler = .ok v.mount ∧
      Journey v.state.world v.mount.handler albumRequest ["/t/"] v.page.handler v.seen := by
  unfold albumVisit? at h
  obtain ⟨⟨app, t⟩, happ, h⟩ := Option.bind_eq_some_iff.mp h
  obtain ⟨m, hm, h⟩ := Option.bind_eq_some_iff.mp h
  obtain ⟨⟨paths, page, seen⟩, hfollow, h⟩ := Option.bind_eq_some_iff.mp h
  dsimp only at h
  split at h
  · split at h
    · rename_i hpaths
      cases h
      subst hpaths
      exact ⟨gives_of_assembled? happ, eq_ok_of_toOption hm, .follow .start hfollow⟩
    · cases h
  · cases h

/-- Where no variable has the name of the remainder, what the client requested is recorded with its
doubled slash. -/
theorem captured_of_journey_album : ∃ app t m, ∃ (f : Forwarder) (seen next : Request),
    (application (albumConfig "id")).Gives (freshState {}) app t ∧
    Mount.ofPath "/app/" app.handler = .ok m ∧
    Journey t.world m.handler albumRequest ["/t/"] f.handler seen ∧
    f.forward? seen = some next ∧
    seen.attributes.get? Attribute.captured = some "/app/a/b//b" ∧
    next.attributes.get? Attribute.captured = some "/app/a/b//b" ∧
    next.attributes.get? Attribute.base = some "/app" ∧ next.reference = "/app/u/" := by
  obtain ⟨⟨app, t, m, f, seen⟩, hvisit, hnodes, hpoint, hr, ha, hpath, hf⟩ :
      ∃ v ∈ albumVisit? "id",
        (∀ node ∈ v.app.handler.nodes, node.SparesRemainder ∧ node.filter?.isNone ∧
          ∀ name ∈ node.names, ¬IsReserved name) ∧
        v.mount.point = "/app/" ∧ v.page.record = true ∧ v.page.application? = none ∧
        v.page.path v.seen = "/u/" ∧ (v.page.forward? v.seen).isSome := by
    decide +kernel
  obtain ⟨happ, hm, hj⟩ := journey_of_albumVisit? hvisit
  obtain ⟨next, hnext⟩ := Option.isSome_iff_exists.mp hf
  have horigin : ∀ node ∈ app.handler.nodes, node.SparesOrigin := fun node hn =>
    ⟨(hnodes node hn).2.2, fun filter hfilter => by simpa [hfilter] using (hnodes node hn).2.1⟩
  obtain ⟨router, handlers, pages, -, hjourney⟩ := captured_of_journey
    (building_create _ _ _ _ _ _) happ hm horigin fun node hn => (hnodes node hn).1
  obtain ⟨hseen, hforward⟩ := hjourney t.world albumRequest ⟨fun _ _ h => h, fun _ _ h => h⟩
    (fun _ _ => rfl) (by rw [hpoint]; decide) _ _ _ hj
  obtain ⟨hcaptured, hbase, -, hreference, -⟩ := hforward f next rfl hr ha hnext
  have hbare : m.bare = "/app" := by rw [Mount.bare, hpoint]; rfl
  have hclient : albumRequest.reference = "/app/a/b//b" := by decide +kernel
  rw [hclient] at hseen hcaptured
  rw [hbare] at hbase hreference
  rw [hpath] at hreference
  exact ⟨app, t, m, f, seen, next, happ, hm, hj, hnext, hseen (by decide), hcaptured, hbase,
    hreference⟩

/-- Where a variable has the name of the remainder, the router takes its value for the rest of the
path, and what the client requested isn't recorded as it was. -/
theorem not_keeps_reference : ¬∀ (w₀ : World) (config : Config) (s t : State) (app : Application)
    (m : Mount) (point : String), s.Building w₀ → (application config).Gives s app t →
    Mount.ofPath point app.handler = .ok m → (∀ node ∈ app.handler.nodes, node.SparesOrigin) →
    ∀ client : Request, (∀ name, IsReserved name → client.attributes.get? name = none) →
      Text.startsWith m.point client.uri.path = true →
      ∀ paths x seen, Journey t.world m.handler client paths x seen → paths ≠ [] →
        seen.attributes.get? Attribute.captured = some client.reference := by
  intro hclaim
  obtain ⟨⟨app, t, m, f, seen⟩, hvisit, hnodes, hpoint, hcaptured⟩ :
      ∃ v ∈ albumVisit? Route.remainder,
        (∀ node ∈ v.app.handler.nodes, node.filter?.isNone ∧
          ∀ name ∈ node.names, ¬IsReserved name) ∧
        v.mount.point = "/app/" ∧
        v.seen.attributes.get? Attribute.captured = some "/app/a/b/b" := by
    decide +kernel
  obtain ⟨happ, hm, hj⟩ := journey_of_albumVisit? hvisit
  have horigin : ∀ node ∈ app.handler.nodes, node.SparesOrigin := fun node hn =>
    ⟨(hnodes node hn).2, fun filter hfilter => by simpa [hfilter] using (hnodes node hn).1⟩
  have hseen := hclaim _ _ _ _ _ _ _ (building_create _ _ _ _ _ _) happ hm horigin albumRequest
    (fun _ _ => rfl) (by rw [hpoint]; decide) _ _ _ hj (by decide)
  rw [hcaptured] at hseen
  exact absurd (Option.some.inj hseen) (by decide +kernel)

end Assembly

end RequestRouting
