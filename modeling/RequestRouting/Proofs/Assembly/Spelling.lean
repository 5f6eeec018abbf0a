import RequestRouting.Proofs.Assembly.Targets

/-!
# Hiding by spelling

A hidden route without variables conceals a single spelling of a path. Files and documents are
looked up by other spellings too, and these are routed as if the route weren't hidden.
-/

namespace RequestRouting

/-- Slashes in front of a path don't count when a file is looked up. -/
theorem StaticFiles.resolve?_append {lead : String} (h : ∀ c ∈ lead.toList, c = '/')
    (s : StaticFiles) (path : String) : s.resolve? (lead ++ path) = s.resolve? path := by
  have ht : Text.trimLead (fun c => decide (c = '/')) (lead ++ path) =
      Text.trimLead (fun c => decide (c = '/')) path :=
    Text.trimLead_append fun c hc => decide_eq_true (h c hc)
  rw [resolve?, resolve?, ht]

/-- Slashes around a name don't count when a document is looked up. -/
theorem DocumentSource.find_append {lead tail : String} (hl : ∀ c ∈ lead.toList, c = '/')
    (ht : ∀ c ∈ tail.toList, c = '/') (s : DocumentSource) (t : FileTree) (now : Time)
    (c : Cache) (name : String) : s.find t now c (lead ++ name ++ tail) = s.find t now c name := by
  have hn : Text.trim (fun c => decide (c = '/')) (lead ++ name ++ tail) =
      Text.trim (fun c => decide (c = '/')) name :=
    Text.trim_append_append (fun c hc => decide_eq_true (hl c hc)) fun c hc =>
      decide_eq_true (ht c hc)
  rw [find, find, hn]

/-- The names that lead to the file a path stands for, from the root of the files on. -/
def StaticFiles.names? (s : StaticFiles) (path : String) : Option (List Path.Component) :=
  (s.resolve? path).map fun full => (Path.components full).filter fun
    | .normal _ => true
    | _ => false

/-- The root router of an application. -/
def Handler.root? : Handler → Option Router
  | .layer .applicationRoot (.router r _) => some r
  | .layer .applicationRoot (.layer (.errorPages _) (.router r _)) => some r
  | _ => none

theorem Handler.root?_rootHandler (application : Nat) (router : Router) (handlers : List Handler)
    (pages : Keyed Nat Capture) :
    (Handler.layer .applicationRoot
      (Assembly.rootHandler application (.router router handlers) pages)).root? = some router := by
  unfold Assembly.rootHandler
  split <;> rfl

/-- A request from outside stays one at the root of an application. -/
theorem Request.isInternal_enterApplication (req : Request) :
    req.enterApplication.isInternal = req.isInternal := by
  have hn : Attribute.history ≠ Attribute.root := by decide
  simp only [isInternal, enterApplication, set, Keyed.contains, Keyed.get?_insert_of_ne _ hn]

namespace Assembly

/-- Without a page for it, 404 is passed on as it is. -/
theorem run_rootHandler {application : Nat} {router : Handler} {pages : Keyed Nat Capture}
    {jump : Jump} {req : Request} {w w' : World} (hp : pages.get? Status.notFound.code = none)
    (h : router.run jump req w = some (.ofStatus .notFound, w')) :
    (rootHandler application router pages).run jump req w = some (.ofStatus .notFound, w') := by
  unfold rootHandler
  split
  · exact h
  · rw [Handler.run, Middleware.serve, ErrorPages.serve]
    simp only [Serving.bind_apply, h, Option.bind_some]
    split
    · rfl
    · have hs : (Response.ofStatus .notFound).status = .notFound := rfl
      rw [hs, hp]
      rfl

/-- The root router answers a request from outside with 404, and nothing is run, if its path is that
of a hidden route without variables, and so does the application, unless it has a page for 404. If
the path is any other one, it's routed as if that route weren't hidden. So slashes in front, and for
documents also at the end, yield paths that lead to the same file or document but that aren't hidden
along with it. -/
theorem conceals_spelling {config : Config} {s t : State} {app : Application}
    (h : (application config).Gives s app t) (hs : s.context.hidden = []) :
    ∃ manual router handlers pages,
      app.handler = .layer .applicationRoot
        (rootHandler t.context.application (.router router handlers) pages) ∧
      (∀ e ∈ router.hidden, Reason config manual e.route) ∧
      ∀ e ∈ router.hidden, e.route.matching = .exact → e.route.keys = [] →
        (∀ req : Request, req.isInternal = false → ∀ jump w,
          (req.uri.path = e.route.path →
            (Handler.router router handlers).run jump req w = some (.ofStatus .notFound, w)) ∧
          (req.uri.path ≠ e.route.path →
            (Handler.router router handlers).run jump req w =
              (Handler.router (router.reveal e.route) handlers).run jump req w)) ∧
        (pages.get? Status.notFound.code = none → ∀ req : Request, req.isInternal = false →
          req.uri.path = e.route.path →
            ∀ fuel w, app.serve fuel req w = some (.ofStatus .notFound, w)) ∧
        ∀ lead tail : String, (∀ c ∈ lead.toList, c = '/') → (∀ c ∈ tail.toList, c = '/') →
          (∀ files : StaticFiles,
            files.resolve? (lead ++ e.route.path) = files.resolve? e.route.path) ∧
          ∀ (source : DocumentSource) files now cache,
            source.find files now cache (lead ++ e.route.path ++ tail) =
              source.find files now cache e.route.path := by
  obtain ⟨manual, router, handlers, pages, happ, hroot, -⟩ := exists_root h hs
  refine ⟨manual, router, handlers, pages, happ, hroot.reason, fun e he hexact hkeys => ?_⟩
  have hcovers (path : String) : e.route.Covers path ↔ path = e.route.path :=
    Route.covers_iff_eq (hroot.regular e he) hexact hkeys
  have hrun {req : Request} (hi : req.isInternal = false) (hp : req.uri.path = e.route.path)
      (jump : Jump) (w : World) :
      (Handler.router router handlers).run jump req w = some (.ofStatus .notFound, w) :=
    Router.run_of_conceals hroot.regular hroot.mode handlers hi ⟨e, he, (hcovers _).mpr hp⟩ jump w
  refine ⟨fun req hi jump w => ⟨fun hp => hrun hi hp jump w, fun hp => ?_⟩, ?_, ?_⟩
  · rw [Handler.run, Handler.run]
    exact Router.serve_reveal hroot.regular _ (mt (hcovers _).mp hp) w
  · intro hpages req hi hp fuel w
    rw [Application.serve, World.answer, happ, Handler.run, Middleware.serve]
    have hi' : req.enterApplication.isInternal = false := req.isInternal_enterApplication.trans hi
    exact run_rootHandler hpages (hrun hi' hp (World.jump fuel) w)
  · exact fun lead tail hl ht => ⟨fun files => files.resolve?_append hl _,
      fun source files now cache => source.find_append hl ht files now cache _⟩

/-- A configuration with a hidden file. -/
def secretConfig : Config where
  routes := ⟨[("/secret.txt", .hidden), ("/*", .node (.static { root := some "public" }))]⟩

/-- The hidden file in its folder. -/
def secretFiles : FileTree where
  entries := [(["public"], .folder), (["public", "secret.txt"], .file "top secret".toUTF8 0)]

theorem conceals_spelling_secret : ∃ app t,
    (application secretConfig).Gives (freshState secretFiles) app t ∧
    (freshState secretFiles).context.hidden = [] ∧ ∃ router handlers pages,
      app.handler = .layer .applicationRoot
        (rootHandler t.context.application (.router router handlers) pages) ∧
      router.hidden.map (·.route) = [⟨"/secret.txt", .exact⟩] ∧
      (∀ jump w, (Handler.router router handlers).run jump { uri := ⟨"/secret.txt", none⟩ } w =
        some (.ofStatus .notFound, w)) ∧
      ∀ jump w, (Handler.router router handlers).run jump { uri := ⟨"//secret.txt", none⟩ } w =
        (Handler.router (router.reveal ⟨"/secret.txt", .exact⟩) handlers).run jump
          { uri := ⟨"//secret.txt", none⟩ } w := by
  have hn : (assembled? secretConfig secretFiles).bind
      (fun p => p.1.handler.root?.map fun router => router.hidden.map (·.route)) =
        some [⟨"/secret.txt", .exact⟩] := by decide +kernel
  obtain ⟨⟨app, t⟩, happ, hn⟩ := Option.bind_eq_some_iff.mp hn
  obtain ⟨-, router, handlers, pages, hhandler, -, hhidden⟩ :=
    conceals_spelling (gives_of_assembled? happ) rfl
  dsimp only at hn
  rw [hhandler, Handler.root?_rootHandler] at hn
  have hroutes : router.hidden.map (·.route) = [⟨"/secret.txt", .exact⟩] := Option.some.inj hn
  obtain ⟨e, he, hroute⟩ : ∃ e ∈ router.hidden, e.route = ⟨"/secret.txt", .exact⟩ := by
    rw [← List.mem_map, hroutes]
    exact List.mem_singleton_self _
  obtain ⟨hspelling, -, -⟩ := hhidden e he (by rw [hroute]) (by rw [hroute]; decide +kernel)
  rw [hroute] at hspelling
  refine ⟨app, t, gives_of_assembled? happ, rfl, router, handlers, pages, hhandler, hroutes, ?_, ?_⟩
  · exact fun jump w =>
      (hspelling { uri := ⟨"/secret.txt", none⟩ } (by decide +kernel) jump w).1 rfl
  · exact fun jump w =>
      (hspelling { uri := ⟨"//secret.txt", none⟩ } (by decide +kernel) jump w).2 (by decide +kernel)

/-- A hidden file isn't hidden under other spellings of its path: the answer to a request from
outside for one of them contains it. -/
theorem not_hides_aliases : ¬∀ (config : Config) (s t : State) (app : Application),
    (application config).Gives s app t → s.context.hidden = [] →
    ∀ router, app.handler.root? = some router →
    ∀ root, ("/*", .node (.static { root := some root })) ∈ config.routes.entries →
    ∀ files, StaticFiles.ofRoot t.world.files (t.context.path root) = .ok files →
    ∀ e ∈ router.hidden, e.route.matching = .exact → e.route.keys = [] →
    ∀ names, files.names? e.route.path = some names →
    ∀ req : Request, req.isInternal = false → files.names? req.uri.path = some names →
    ∀ full content, files.resolve? e.route.path = some full →
      t.world.files.read full = .ok content →
    ∀ fuel res w, app.serve fuel req t.world = some (res, w) → res.body ≠ content := by
  intro hclaim
  have hn : (do
      let p ← assembled? secretConfig secretFiles
      let router ← p.1.handler.root?
      let files ← (StaticFiles.ofRoot p.2.world.files (p.2.context.path "public")).toOption
      let names ← files.names? "/secret.txt"
      let full ← files.resolve? "/secret.txt"
      let content ← (p.2.world.files.read full).toOption
      let q ← p.1.serve 2 { uri := ⟨"//secret.txt", none⟩ } p.2.world
      return (router.hidden.map (·.route), decide (files.names? "//secret.txt" = some names),
        decide (q.1.body = content))) = some ([⟨"/secret.txt", .exact⟩], true, true) := by
    decide +kernel
  simp only [Option.bind_eq_bind, Option.pure_def, Option.bind_eq_some_iff, Option.some.injEq,
    Prod.mk.injEq, decide_eq_true_eq, Prod.exists] at hn
  obtain ⟨app, t, happ, router, hrouter, files, hfiles, names, hnames, full, hfull, content,
    hcontent, res, w, hres, hroutes, halias, hbody⟩ := hn
  obtain ⟨e, he, hroute⟩ : ∃ e ∈ router.hidden, e.route = ⟨"/secret.txt", .exact⟩ := by
    rw [← List.mem_map, hroutes]
    exact List.mem_singleton_self _
  refine hclaim secretConfig (freshState secretFiles) t app (gives_of_assembled? happ) rfl router
    hrouter "public" (List.mem_cons_of_mem _ (List.mem_singleton_self _)) files
    (eq_ok_of_toOption hfiles) e he ?_ ?_ names ?_ { uri := ⟨"//secret.txt", none⟩ }
    (by decide +kernel) halias full content ?_ (eq_ok_of_toOption hcontent) 2 res w hres hbody
  all_goals rw [hroute]
  · decide +kernel
  · exact hnames
  · exact hfull

end Assembly

end RequestRouting
