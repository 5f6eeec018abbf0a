import RequestRouting.Proofs.Assembly.Linked
import RequestRouting.Proofs.Documents.PassThrough
import RequestRouting.Proofs.Http.Escapes

/-!
# Dispatches

A dispatch captures requests to the document of its dispatcher below the internal URI of the manual
resource. What that looks up is what is left of the path below the URI, so the document has to pass
through under that name, and a path without a slash at its end is redirected.
-/

namespace RequestRouting

/-- Whether a world has the slots and the dispatch tables that another one has. -/
structure World.KeptBy (w w' : World) : Prop where
  slots : ∀ (i : Nat) x, w.slots[i]? = some x → w'.slots[i]? = some x
  tables : ∀ (i : Nat) x, w.tables[i]? = some x → w'.tables[i]? = some x

namespace DispatchTable

variable {t : DispatchTable} {name : String} {entry : Entry}

theorem mem_referenced (h : t.entry? name = some entry) (hr : entry.referenced = true) :
    entry.target ∈ t.referenced :=
  List.mem_map_of_mem (List.mem_filter.mpr ⟨List.mem_of_find?_eq_some h, hr⟩)

/-- A target that is referenced is bound below the internal URI. -/
theorem get?_bind (h : t.entry? name = some entry) (hr : entry.referenced = true)
    (hu : entry.target.uri = none) (internal : String) : (t.bind internal).get? name =
      some { entry.target with uri := some (entry.target.captureUri internal) } := by
  have hname : ((fun x : Entry => decide (x.target.name = name)) ∘ fun x : Entry =>
      if x.referenced && x.target.uri.isNone then
        { x with target.uri := some (x.target.captureUri internal) }
      else x) = fun x => decide (x.target.name = name) := by
    funext x
    dsimp only [Function.comp]
    split <;> rfl
  have hfind : t.entries.find? (fun x => decide (x.target.name = name)) = some entry := h
  rw [get?, bind, List.find?_map, hname, hfind]
  simp [hr, hu]

end DispatchTable

namespace Router

/-- Of the entries of a router, the last one is selected if it's the only one that matches. -/
theorem select?_last {r : Router} {entries : List Entry} {e : Entry} {req seen : Request}
    (hr : r.entries = entries ++ [e]) (hi : req.isInternal = true)
    (hn : ∀ other ∈ entries, other.matcher.accepts req.uri.path = false)
    (he : enter e req = some seen) (w : World) :
    r.select? req w = some ⟨entries.length, seen, false⟩ := by
  have ha : e.matcher.accepts req.uri.path = true := by
    obtain ⟨values, hv, -⟩ := Option.map_eq_some_iff.mp he
    rw [RouteMatcher.accepts, hv]
    rfl
  refine route?_of_matching (by rw [hi]; rfl) ?_ he _ _
  rw [matching, hr, List.zipIdx_append, List.filter_append, List.filter_eq_nil_iff.mpr]
  · simp [ha]
  · intro p hp
    simpa using hn p.1 (List.fst_mem_of_mem_zipIdx hp)

end Router

namespace Assembly

/-- Whether a name is reserved for attributes that aren't configured. -/
def IsReserved (name : String) : Prop := Text.startsWith "trellis." name = true

instance (name : String) : Decidable (IsReserved name) := inferInstanceAs (Decidable (_ = true))

/-- What is given to an executor by a dispatch: the identifier, and the dispatcher with its
resources. -/
structure Hands (d : Dispatch) (req seen : Request) : Prop where
  id : seen.attributes.get? Attribute.dispatchId = some (d.id.expand req)
  dispatcher : seen.attributes.get? Attribute.dispatcher = some d.dispatcher
  resources : seen.attributes.get? Attribute.resources = some d.resources

/-- What becomes of the three values depends on their attributes only. -/
theorem Hands.congr {d : Dispatch} {req a b : Request} (h : Hands d req a)
    (hk : ∀ key ∈ [Attribute.dispatchId, Attribute.dispatcher, Attribute.resources],
      b.attributes.get? key = a.attributes.get? key) : Hands d req b :=
  ⟨(hk _ (by simp)).trans h.id, (hk _ (by simp)).trans h.dispatcher,
    (hk _ (by simp)).trans h.resources⟩

theorem isReserved_of_mem {key : String}
    (h : key ∈ [Attribute.dispatchId, Attribute.dispatcher, Attribute.resources]) :
    IsReserved key ∧ key ≠ Attribute.base ∧ key ≠ Attribute.history ∧
      key ≠ Attribute.captured ∧ key ≠ Route.remainder := by
  simp only [List.mem_cons, List.not_mem_nil, or_false] at h
  rcases h with rfl | rfl | rfl <;> refine ⟨?_, ?_, ?_, ?_, ?_⟩ <;> decide

/-- A dispatch hands the values over, unless they're overwritten by configured ones. -/
theorem hands_captured {d : Dispatch} (hl : ∀ key ∈ d.locals.map (·.1), ¬IsReserved key)
    (uri : String) (table place : Nat) (req : Request) :
    Hands d req (((Forwarder.dispatch d uri table place).prepared req).capturedTo uri true) := by
  have hset : Hands d req (((req.set Attribute.dispatchId (d.id.expand req)).set
      Attribute.dispatcher d.dispatcher).set Attribute.resources d.resources) := by
    have h₁ : Attribute.dispatchId ≠ Attribute.dispatcher := by decide
    have h₂ : Attribute.dispatchId ≠ Attribute.resources := by decide
    have h₃ : Attribute.dispatcher ≠ Attribute.resources := by decide
    refine ⟨?_, ?_, ?_⟩ <;>
      simp [Request.set, Keyed.get?_insert_of_ne _ h₁, Keyed.get?_insert_of_ne _ h₂,
        Keyed.get?_insert_of_ne _ h₃]
  refine hset.congr fun key hkey => ?_
  obtain ⟨hr, hb, hh, hc, -⟩ := isReserved_of_mem hkey
  rw [Request.get?_capturedTo _ _ _ hh hb hc]
  exact Keyed.get?_insertMany_of_not_mem _ fun hm => hl key hm hr

/-- How a dispatch gets to the document of its dispatcher: the target of the dispatcher, the entry
that the manual resource is mounted with behind all others, and that resource. -/
structure IsDispatched (config : Config) (t : State) (m : Singleton ManualNode) (d : Dispatch)
    (table place : Nat) (target : DispatchTarget) (e : Router.Entry) (docs : Documents) : Prop where
  found : t.context.dispatch.get? d.dispatcher = some target
  resources : target.resources = d.resources
  uri : target.uri = some (target.captureUri m.config.mount)
  published : t.world.tables[table]? = some t.context.dispatch
  root : ∃ router handlers entries,
    t.world.slots[place]? = some (.borrowed (.router router handlers)) ∧ router.mode = .best ∧
    router.entries = entries ++ [e] ∧ (∀ other ∈ entries, IsEntry config other) ∧
    handlers[entries.length]? = some (.slot m.slot)
  parse : Route.parse (m.config.mount ++ "*") = .ok e.route
  matcher : e.route.matcher = .ok e.matcher
  resource : ∃ h, t.world.slots[m.slot]? = some (.owned h) ∧ IsResource docs h
  passes : Text.trim (· = '/') target.dispatcher ∈ docs.passThroughs
  libraries : docs.libraries = t.context.libraries
  registry : docs.registry = t.context.registry
  trailingSlash : docs.trailingSlash = m.config.trailingSlashRequired.getD true

variable {w₀ w w₁ w₂ : World} {config : Config} {app : Application} {s t : State}
  {m : Singleton ManualNode} {d : Dispatch} {table place : Nat}

/-- Every dispatch of an application that has a manual resource gets there. -/
theorem exists_dispatched (hs : s.Building w₀) (h : (application config).Gives s app t)
    (hm : t.context.manual = some m) (hd : .dispatch d table place ∈ app.handler.links) :
    ∃ target e docs, IsDispatched config t m d table place target e docs := by
  obtain ⟨leaves, nodes, done, mount, router, handlers, pages, hparts⟩ := exists_parts hs h
  obtain ⟨hplace, htable, entry, hentry, href, hres⟩ := hparts.knows_root _ hd
  obtain ⟨hidden, ht⟩ := hparts.context
  obtain ⟨dispatch, hdone⟩ := hparts.finishes.context
  obtain ⟨hm', hmount⟩ := hparts.mount_eq hm
  obtain ⟨hbind, htables, resource, docs, hslot, hresource, hmanual⟩ := hparts.finishes.manual m hm'
  obtain ⟨entries, hlength, hentries, -, hlast⟩ := hparts.entries
  obtain ⟨e, hrouter, hparse, hmatcher⟩ := hlast _ _ hmount
  have hdispatch : t.context.dispatch = nodes.context.dispatch.bind m.config.mount := by
    rw [ht]
    exact hbind
  have huri := hparts.building.uris entry (List.mem_of_find?_eq_some hentry)
  refine ⟨{ entry.target with uri := some (entry.target.captureUri m.config.mount) }, e, docs, ?_,
    hres.symm, rfl, ?_, ?_, hparse, hmatcher, ?_, ?_, ?_, ?_, ?_⟩
  · rw [hdispatch]
    exact DispatchTable.get?_bind hentry href huri _
  · rw [hparts.world]
    change done.world.tables[table]? = _
    rw [htables, hparts.building.tables, htable, hparts.building.table,
      Array.getElem?_setIfInBounds, if_pos rfl, if_pos (by simp), hbind, hdispatch]
  · refine ⟨router, handlers, entries, ?_, hparts.mode, hrouter, hentries, ?_⟩
    · rw [hparts.getElem?_slots, hplace, if_pos hparts.building.application.symm]
    · rw [hparts.handlers, hmount, hlength]
      simp
  · exact ⟨resource, hparts.getElem?_owned hslot, hresource⟩
  · have hpass := m.config.mem_withTargets (DispatchTable.mem_referenced hentry href)
    rwa [hmanual.passThroughs]
  · rw [hmanual.libraries, ht, hdone]
  · rw [hmanual.registry, ht, hdone]
  · rw [hmanual.trailingSlash, ManualNode.trailingSlashRequired_withTargets]

namespace IsDispatched

variable {target : DispatchTarget} {e : Router.Entry} {docs : Documents}
  (h : IsDispatched config t m d table place target e docs)

include h

theorem route_eq : e.route = ⟨m.config.mount, .startsWith⟩ := by
  have hp := h.parse
  rw [Route.parse, Text.dropTail?_eq_some.mpr rfl] at hp
  dsimp only at hp
  split at hp
  · cases hp
  · exact Route.eq_of_ofPath hp

/-- The manual resource gets the request, with what's left of the path for its path, if no other
route matches. -/
theorem run (hw : t.world.KeptBy w) {req : Request} {path : String}
    (hpath : e.path? (Uri.parse (target.captureUri m.config.mount)).path = some path)
    (hn : ∀ other, IsEntry config other →
      other.matcher.accepts (Uri.parse (target.captureUri m.config.mount)).path = false)
    (hhistory : (Uri.parse (target.captureUri m.config.mount)).path ∉ Text.lines req.history)
    (hl : ∀ key ∈ d.locals.map (·.1), ¬IsReserved key)
    (hk : ∀ key ∈ e.route.keys, ¬IsReserved key) (fuel : Nat) :
    ∃ seen resource, Hands d req seen ∧ seen.headers = req.headers ∧ seen.uri.path = path ∧
      IsResource docs resource ∧
      (Handler.dispatch d table place).run (World.jump (fuel + 2)) req w =
        resource.run (World.jump fuel) seen w := by
  have hlhistory : Attribute.history ∉ d.locals.map (·.1) := fun hm => hl _ hm (by decide)
  generalize huri : target.captureUri m.config.mount = uri at hpath hn hhistory
  have hready : (Forwarder.dispatch d uri table place).IsReady w := by
    have htable := hw.tables _ _ h.published
    rw [Forwarder.IsReady, Array.getD_eq_getD_getElem?, htable, Option.getD_some, h.found,
      Option.bind_some, h.uri, huri]
  have hforward : (Forwarder.dispatch d uri table place).forward? req =
      some (((Forwarder.dispatch d uri table place).prepared req).capturedTo uri true) := by
    rw [(Forwarder.dispatch d uri table place).forward?_eq req hlhistory]
    exact if_neg hhistory
  generalize hcaptured : ((Forwarder.dispatch d uri table place).prepared req).capturedTo uri true =
    captured at hforward
  have hcpath : captured.uri.path = (Uri.parse uri).path := by
    rw [← hcaptured, Request.uri_capturedTo]
    rfl
  have hchands : Hands d req captured := by
    rw [← hcaptured]
    exact hands_captured hl _ _ _ _
  rw [← hcpath] at hpath hn
  obtain ⟨seen, henter, hseen⟩ := Router.exists_enter hpath
  obtain ⟨-, attributes, hparts, hkeep⟩ := Router.exists_of_enter henter
  obtain ⟨router, handlers, entries, hslot, hmode, hrouter, hentries, hhandler⟩ := h.root
  obtain ⟨resource, hresource, his⟩ := h.resource
  refine ⟨seen, resource, ?_, ?_, hseen, his, ?_⟩
  · refine hchands.congr fun key hkey => ?_
    obtain ⟨hr, hb, -, -, hrr⟩ := isReserved_of_mem hkey
    rw [hparts]
    refine hkeep key hb fun hm => ?_
    rcases e.mem_keys_of_mem_names h.matcher hm with hm | rfl
    · exact hk key hm hr
    · exact hrr rfl
  · rw [hparts, ← hcaptured, Request.headers_capturedTo, Forwarder.headers_prepared]
  · have hrun := (Forwarder.dispatch d uri table place).run_handler req (World.jump (fuel + 2))
      hready
    rw [hforward] at hrun
    refine hrun.trans ?_
    have hroot : w.handler? (.slot place) = some (.router router handlers) := by
      simp [World.handler?, hw.slots _ _ hslot, Slot.get?]
    have hmanual : w.handler? (.slot m.slot) = some resource := by
      simp [World.handler?, hw.slots _ _ hresource, Slot.get?]
    have hinternal : captured.isInternal = true := by
      rw [← hcaptured]
      exact Request.isInternal_capturedTo _ _ _
    have hselect := Router.select?_last hrouter hinternal
      (fun other ho => hn other (hentries other ho)) henter w
    have hadvance : router.advance (some ⟨entries.length, seen, false⟩) w = w := by
      simp [Router.advance, hmode]
    dsimp only [Forwarder.target]
    rw [World.jump_succ, hroot]
    dsimp only
    rw [Handler.run, Router.serve_apply, hselect]
    simp only [Handler.runAll_getElem?, hhandler, Option.map_some, Option.getD_some, hadvance,
      Handler.run]
    rw [World.jump_succ, hmanual]

/-- Without variables, queries and escapes, and with a slash between the internal URI and the name
of the document, the manual resource gets the cleaned name. -/
theorem path?_captureUri (hk : e.route.keys = [])
    (hq : '?' ∉ (target.captureUri m.config.mount).toList)
    (hp : ¬Uri.HasEscape (target.captureUri m.config.mount))
    (hs : Text.endsWith "/" m.config.mount = true ∨ Text.startsWith "/" target.dispatcher = true) :
    e.path? (Uri.parse (target.captureUri m.config.mount)).path =
      some (clean target.dispatcher) := by
  have hself : (Uri.parse (target.captureUri m.config.mount)).path =
      target.captureUri m.config.mount := by
    rw [Uri.parse, Text.cut?, Text.Chars.cut?_eq_none hq, Option.map_none]
    exact (Uri.decode_eq_self_iff _).mpr hp
  rw [hself]
  exact Router.Entry.path?_clean h.route_eq h.matcher hk hs

end IsDispatched

/-- Whether an answer is what an executor makes of a request and a document, with header fields for
caching, and compressed where that applies. -/
def Executes (docs : Documents) (document : Document) (executor : Executor) (seen : Request)
    (w : World) (answer : Option (Response × World)) : Prop :=
  ∃ res w', Serving.execute executor (docs.invocation document) seen w = some (res, w') ∧
    (answer = some (docs.stamp document.modified res, w') ∨ ∃ compress : Compress,
      answer = some (compress.apply seen (docs.stamp document.modified res), w'))

theorem IsResource.executes {docs : Documents} {resource : Handler} (hr : IsResource docs resource)
    {document : Document} {executor : Executor} {seen : Request}
    (hs : docs.serve seen w = (Serving.execute executor (docs.invocation document) seen w₂).map
      fun p => (docs.stamp document.modified p.1, p.2)) (jump : Jump) :
    Executes docs document executor seen w₂ (resource.run jump seen w) := by
  obtain ⟨res, w', he⟩ : ∃ res w', Serving.execute executor (docs.invocation document) seen w₂ =
      some (res, w') := ⟨_, _, rfl⟩
  rw [he, Option.map_some] at hs
  refine ⟨res, w', he, ?_⟩
  rcases hr with rfl | ⟨compress, rfl⟩
  · exact Or.inl hs
  · refine Or.inr ⟨compress, ?_⟩
    change (docs.serve seen w).bind _ = _
    rw [hs]
    rfl

/-- Redirections aren't compressed. -/
theorem IsResource.redirects {docs : Documents} {resource : Handler} (hr : IsResource docs resource)
    {location : String} {seen : Request}
    (hs : docs.serve seen w = some (.redirect .movedPermanently location, w₂)) (jump : Jump) :
    resource.run jump seen w = some (.redirect .movedPermanently location, w₂) := by
  rcases hr with rfl | ⟨compress, rfl⟩
  · exact hs
  · have hn : compress.isEligible (.redirect .movedPermanently location) = false := by
      have hstatus : (Response.redirect .movedPermanently location).status.isSuccess = false := rfl
      simp [Compress.isEligible, hstatus]
    change (docs.serve seen w).bind _ = _
    rw [hs]
    simp [Compress.apply, hn]

/-- A dispatch runs the executor with the library document of its dispatcher, if the path that the
manual resource gets is the name of the document apart from slashes around it, and ends in one.
Without that slash the request is redirected to the internal path instead. The path is the cleaned
name, if there are no variables, queries and escapes in the way and a slash comes before the name.
So the executor is run exactly if the name ends in a slash, or is empty, as long as no slashes are
doubled in it. -/
theorem executes_dispatcher (hs : s.Building w₀) (h : (application config).Gives s app t)
    (hm : t.context.manual = some m) (hd : .dispatch d table place ∈ app.handler.links) :
    ∃ target e docs, IsDispatched config t m d table place target e docs ∧
      (e.route.keys = [] → '?' ∉ (target.captureUri m.config.mount).toList →
        ¬Uri.HasEscape (target.captureUri m.config.mount) →
        (Text.endsWith "/" m.config.mount = true ∨
          Text.startsWith "/" target.dispatcher = true) →
        e.path? (Uri.parse (target.captureUri m.config.mount)).path =
            some (clean target.dispatcher) ∧
          (Text.trim (· = '/') (clean target.dispatcher) = Text.trim (· = '/') target.dispatcher ↔
            Spaced '/' (Text.trim (· = '/') target.dispatcher).toList) ∧
          (target.dispatcher ≠ "" → Text.endsWith "/" (clean target.dispatcher) =
            Text.endsWith "/" target.dispatcher)) ∧
      ∀ (w w₁ w₂ : World) (req : Request) (document : Document) (executor : Executor)
        (path : String) (fuel : Nat), t.world.KeptBy w →
        m.config.trailingSlashRequired.getD true = true →
        req.headers.get? .ifModifiedSince = none →
        (Uri.parse (target.captureUri m.config.mount)).path ∉ Text.lines req.history →
        (∀ key ∈ d.locals.map (·.1), ¬IsReserved key) → (∀ key ∈ e.route.keys, ¬IsReserved key) →
        (∀ other, IsEntry config other →
          other.matcher.accepts (Uri.parse (target.captureUri m.config.mount)).path = false) →
        Serving.find docs.source target.dispatcher w = some (none, w₁) →
        Serving.findFirst docs.libraries (Text.trim (· = '/') target.dispatcher) w₁ =
          some (some document, w₂) →
        docs.registry.executor? document.extension = some executor →
        e.path? (Uri.parse (target.captureUri m.config.mount)).path = some path →
        Text.trim (· = '/') path = Text.trim (· = '/') target.dispatcher →
        ∃ seen, Hands d req seen ∧ seen.uri.path = path ∧
          (Text.endsWith "/" path = true → Executes docs document executor seen w₂
            ((Handler.dispatch d table place).run (World.jump (fuel + 2)) req w)) ∧
          (Text.endsWith "/" path = false →
            (Handler.dispatch d table place).run (World.jump (fuel + 2)) req w =
              some (Response.redirect .movedPermanently
                (Uri.ofParts (seen.reference ++ "/") seen.uri.query).text, w₂)) := by
  obtain ⟨target, e, docs, hdispatched⟩ := exists_dispatched hs h hm hd
  refine ⟨target, e, docs, hdispatched, ?_, ?_⟩
  · intro hk hq hp hslash
    exact ⟨hdispatched.path?_captureUri hk hq hp hslash, trim_clean_iff _, endsWith_clean⟩
  · intro w w₁ w₂ req document executor path fuel hw htrailing hsince hhistory hl hk hn hsource
      hlibrary hexecutor hpath hname
    obtain ⟨seen, resource, hhands, hheaders, hseen, hresource, hrun⟩ :=
      hdispatched.run hw hpath hn hhistory hl hk fuel
    have hfind : docs.find seen.uri.path w = some (some document, w₂) := by
      rw [hseen]
      exact Documents.find_of_passes hname hdispatched.passes hsource hlibrary
    refine ⟨seen, hhands, hseen, fun hslash => ?_, fun hslash => ?_⟩
    · rw [hrun]
      refine hresource.executes ?_ _
      exact Documents.serve_of_endsWith hfind (hseen ▸ hslash) (hheaders ▸ hsince) hexecutor
    · rw [hrun]
      refine hresource.redirects ?_ _
      exact Documents.serve_of_not_endsWith hfind (hdispatched.trailingSlash.trans htrailing)
        (hseen ▸ hslash)

/-- An executor that answers a request has handled one more. -/
theorem Executes.handled {docs : Documents} {document : Document} {executor : Executor}
    {seen : Request} {answer : Option (Response × World)}
    (h : Executes docs document executor seen w answer) (hp : executor.place < w.tallies.size) :
    answer.map (fun p => (p.2.tallies.getD executor.place {}).handled) =
      some ((w.tallies.getD executor.place {}).handled + 1) := by
  obtain ⟨res, w', he, ha⟩ := h
  obtain ⟨-, rfl⟩ := Prod.mk.inj (Option.some.inj he)
  have hone : ((w.tallies.modify executor.place fun t => { t with handled := t.handled + 1 }).getD
      executor.place {}).handled = (w.tallies.getD executor.place {}).handled + 1 := by
    simp [Array.getD_eq_getD_getElem?, Array.getElem?_modify, Array.getElem?_eq_getElem hp]
  rcases ha with rfl | ⟨compress, rfl⟩ <;> exact congrArg some hone

/-- An application with a manual resource, and with a dispatch to the given document. -/
def langConfig (document : String) : Config where
  routes := ⟨[("/m/*", .node (.manual {})), ("/go/", .node (.dispatch { id := "item" }))]⟩
  dispatchers := { default := some "lang", entries := ⟨[("lang", { document := some document })]⟩ }

/-- The library document of the dispatcher. -/
def langFiles : FileTree where
  entries := [(["libraries"], .folder), (["libraries", "dispatchers"], .folder),
    (["libraries", "dispatchers", "lang.js"], .file .empty 0)]

/-- An executor that answers with nothing. -/
def langExecutor : Executor where
  place := 0
  handle _ _ _ := {}
  before _ _ req := .continue req
  after _ res := res

/-- The state in which the application is assembled. -/
def langState (document : String) : State :=
  let (context, world) := Context.create "shop" "." {}
    (({} : Registry).addExecutor "js" langExecutor) (langConfig document).dispatchers { files := langFiles, tallies := #[{}] }
  { context, world }

/-- The dispatch at a link. -/
def dispatch? : Link → Option (Dispatch × Nat × Nat)
  | .dispatch d table place => some (d, table, place)
  | _ => none

/-- The documents of a resource. -/
def documents? : Handler → Option Documents
  | .documents d | .layer _ (.documents d) => some d
  | _ => none

theorem IsResource.documents?_eq {docs : Documents} {resource : Handler}
    (hr : IsResource docs resource) : documents? resource = some docs := by
  rcases hr with rfl | ⟨compress, rfl⟩ <;> rfl

/-- The matchers of all routes of an application. -/
def matchers (config : Config) : List RouteMatcher :=
  config.routes.entries.filterMap fun (key, _) =>
    (Route.parse (clean key)).toOption.bind (·.matcher.toOption)

theorem IsEntry.mem_matchers {e : Router.Entry} (h : IsEntry config e) :
    e.matcher ∈ matchers config := by
  obtain ⟨key, d, hm, -, hparse, hmatcher⟩ := h
  exact List.mem_filterMap.mpr ⟨(key, d), hm, by simp [hparse, hmatcher, Except.toOption]⟩

/-- What comes of a request to the dispatch in an assembled application, with an executor that's
found, and how often that has handled one afterwards. -/
structure LangAnswers (document : String) (handled : Nat) (t : State) (m : Singleton ManualNode)
    (x : Dispatch × Nat × Nat) (target : DispatchTarget) (executor : Executor) (w : World) :
    Prop where
  mount : m.config.mount = "/_manual/"
  trailingSlash : m.config.trailingSlashRequired = none
  locals : x.1.locals = []
  dispatcher : target.dispatcher = document
  tally : executor.place < w.tallies.size
  before : (w.tallies.getD executor.place {}).handled = 0
  after : ((Handler.dispatch x.1 x.2.1 x.2.2).run (World.jump 2) {} t.world).map
    (fun p => (p.2.tallies.getD executor.place {}).handled) = some handled
  others : ∀ matcher ∈ matchers (langConfig document),
    matcher.accepts (Uri.parse (target.captureUri m.config.mount)).path = false

instance (document : String) (handled : Nat) (t : State) (m : Singleton ManualNode)
    (x : Dispatch × Nat × Nat) (target : DispatchTarget) (executor : Executor) (w : World) :
    Decidable (LangAnswers document handled t m x target executor w) :=
  decidable_of_iff (m.config.mount = "/_manual/" ∧ m.config.trailingSlashRequired = none ∧
      x.1.locals = [] ∧ target.dispatcher = document ∧ executor.place < w.tallies.size ∧
      (w.tallies.getD executor.place {}).handled = 0 ∧
      ((Handler.dispatch x.1 x.2.1 x.2.2).run (World.jump 2) {} t.world).map
        (fun p => (p.2.tallies.getD executor.place {}).handled) = some handled ∧
      ∀ matcher ∈ matchers (langConfig document),
        matcher.accepts (Uri.parse (target.captureUri m.config.mount)).path = false)
    ⟨fun ⟨h₁, h₂, h₃, h₄, h₅, h₆, h₇, h₈⟩ => ⟨h₁, h₂, h₃, h₄, h₅, h₆, h₇, h₈⟩,
      fun ⟨h₁, h₂, h₃, h₄, h₅, h₆, h₇, h₈⟩ => ⟨h₁, h₂, h₃, h₄, h₅, h₆, h₇, h₈⟩⟩

/-- The assembled application, with everything that is found on the way to the executor. -/
def LangFacts (document : String) (handled : Nat) : Prop :=
  ∃ q ∈ (match (application (langConfig document)).run (langState document) with
    | (.ok app, t) => some (app, t)
    | _ => none),
  ∃ m ∈ q.2.context.manual, ∃ x ∈ (q.1.handler.links.filterMap dispatch?).head?,
  ∃ docs ∈ ((q.2.world.slots[m.slot]?).bind Slot.get?).bind documents?,
  ∃ target ∈ q.2.context.dispatch.get? x.1.dispatcher,
  ∃ y ∈ Serving.find docs.source target.dispatcher q.2.world,
  ∃ z ∈ Serving.findFirst docs.libraries (Text.trim (· = '/') target.dispatcher) y.2,
  ∃ found ∈ z.1, ∃ executor ∈ docs.registry.executor? found.extension,
    y.1.isNone ∧ LangAnswers document handled q.2 m x target executor z.2

instance (document : String) (handled : Nat) : Decidable (LangFacts document handled) := by
  unfold LangFacts
  infer_instance

theorem building_langState (document : String) :
    (langState document).Building { files := langFiles, tallies := #[{}] } :=
  building_create _ _ _ _ _ _

/-- The facts hold of whatever a dispatch of the application gets to. -/
theorem LangFacts.exists_dispatch {document : String} {handled : Nat}
    (h : LangFacts document handled) : ∃ app t m d table place,
      (application (langConfig document)).Gives (langState document) app t ∧
      t.context.manual = some m ∧ .dispatch d table place ∈ app.handler.links ∧
      ∀ target e docs, IsDispatched (langConfig document) t m d table place target e docs →
        ∃ w₁ w₂ found executor,
          Serving.find docs.source target.dispatcher t.world = some (none, w₁) ∧
          Serving.findFirst docs.libraries (Text.trim (· = '/') target.dispatcher) w₁ =
            some (some found, w₂) ∧
          docs.registry.executor? found.extension = some executor ∧
          LangAnswers document handled t m (d, table, place) target executor w₂ := by
  obtain ⟨⟨app, t⟩, happ, m, hm, ⟨d, table, place⟩, hx, docs, hdocs, target, htarget, ⟨y, w₁⟩, hy,
    ⟨z, w₂⟩, hz, found, hfound, executor, hexecutor, hnone, hanswers⟩ := h
  have hgives : (application (langConfig document)).Gives (langState document) app t :=
    gives_of_assembledIn? happ
  have hlink : .dispatch d table place ∈ app.handler.links := by
    obtain ⟨link, hlink, hl⟩ := List.mem_filterMap.mp (List.mem_of_head? hx)
    cases link with
    | dispatch _ _ _ =>
      cases hl
      exact hlink
    | _ => cases hl
  refine ⟨app, t, m, d, table, place, hgives, hm, hlink, ?_⟩
  intro target' e docs' hd
  obtain rfl : target' = target := Option.some.inj (hd.found.symm.trans htarget)
  obtain ⟨resource, hslot, hresource⟩ := hd.resource
  obtain rfl : docs' = docs := by
    have hdocs' := hdocs
    rw [hslot] at hdocs'
    exact Option.some.inj (hresource.documents?_eq.symm.trans hdocs')
  obtain rfl : y = none := by simpa using hnone
  obtain rfl : z = some found := hfound
  exact ⟨w₁, w₂, found, executor, hy, hz, hexecutor, hanswers⟩

/-- With a slash at the end of the name the executor handles the request, without one it doesn't. -/
theorem langFacts : LangFacts "/dispatchers/lang/" 1 ∧ LangFacts "/dispatchers/lang" 0 :=
  ⟨by decide +kernel, by decide +kernel⟩

/-- A dispatch to a document whose name ends in a slash runs the executor. -/
theorem executes_dispatcher_lang : ∃ app t m d table place,
    (application (langConfig "/dispatchers/lang/")).Gives (langState "/dispatchers/lang/") app t ∧
    t.context.manual = some m ∧ .dispatch d table place ∈ app.handler.links ∧
    ∃ docs found executor seen w, Hands d {} seen ∧ seen.uri.path = "/dispatchers/lang/" ∧
      Executes docs found executor seen w
        ((Handler.dispatch d table place).run (World.jump 2) {} t.world) := by
  obtain ⟨app, t, m, d, table, place, hgives, hm, hlink, hfound⟩ := langFacts.1.exists_dispatch
  refine ⟨app, t, m, d, table, place, hgives, hm, hlink, ?_⟩
  obtain ⟨target, e, docs, hd, hplain, hexecutes⟩ :=
    executes_dispatcher (building_langState _) hgives hm hlink
  obtain ⟨w₁, w₂, found, executor, hsource, hlibrary, hexecutor, ha⟩ := hfound target e docs hd
  have huri : target.captureUri m.config.mount = "/_manual/dispatchers/lang/" := by
    rw [DispatchTarget.captureUri, ha.mount, ha.dispatcher]
    rfl
  have hkeys : e.route.keys = [] := by
    rw [hd.route_eq, ha.mount]
    exact Route.keys_eq_nil (by decide) (by decide)
  have hescape : ¬Uri.HasEscape (target.captureUri m.config.mount) := by
    rw [huri]
    decide
  obtain ⟨hpath, -, -⟩ := hplain hkeys (by rw [huri]; decide) hescape
    (Or.inl (by rw [ha.mount]; rfl))
  obtain ⟨seen, hhands, hseen, hslash, -⟩ := hexecutes t.world w₁ w₂ {} found executor _ 0
    ⟨fun _ _ h => h, fun _ _ h => h⟩ (by rw [ha.trailingSlash]; rfl) rfl
    List.not_mem_nil (by rw [ha.locals]; simp) (by rw [hkeys]; simp)
    (fun other ho => ha.others _ ho.mem_matchers) hsource hlibrary hexecutor hpath
    (by rw [ha.dispatcher]; rfl)
  have hclean : clean target.dispatcher = "/dispatchers/lang/" := by
    rw [ha.dispatcher]
    rfl
  rw [hclean] at hseen hslash
  exact ⟨docs, found, executor, seen, w₂, hhands, hseen, hslash rfl⟩

/-- A dispatch to a document whose name doesn't end in a slash may fail to run the executor, though
everything that is needed is there. -/
theorem not_dispatches : ¬∀ (w₀ : World) (config : Config) (s t : State) (app : Application)
    (m : Singleton ManualNode) (d : Dispatch) (table place : Nat), s.Building w₀ →
    (application config).Gives s app t → t.context.manual = some m →
    .dispatch d table place ∈ app.handler.links → m.config.trailingSlashRequired = none →
    ∀ target e docs, IsDispatched config t m d table place target e docs →
    ∀ (w w₁ w₂ : World) (req : Request) (document : Document) (executor : Executor),
      t.world.KeptBy w → req.headers.get? .ifModifiedSince = none →
      req.attributes.get? Attribute.history = none → (∀ key ∈ d.locals.map (·.1), ¬IsReserved key) →
      (∀ other, IsEntry config other →
        other.matcher.accepts (Uri.parse (target.captureUri m.config.mount)).path = false) →
      Serving.find docs.source target.dispatcher w = some (none, w₁) →
      Serving.findFirst docs.libraries (Text.trim (· = '/') target.dispatcher) w₁ =
        some (some document, w₂) →
      docs.registry.executor? document.extension = some executor →
      ∀ fuel, ∃ seen, Hands d req seen ∧ Executes docs document executor seen w₂
        ((Handler.dispatch d table place).run (World.jump (fuel + 2)) req w) := by
  intro hclaim
  obtain ⟨app, t, m, d, table, place, hgives, hm, hlink, hfound⟩ := langFacts.2.exists_dispatch
  obtain ⟨target, e, docs, hd⟩ := exists_dispatched (building_langState _) hgives hm hlink
  obtain ⟨w₁, w₂, found, executor, hsource, hlibrary, hexecutor, ha⟩ := hfound target e docs hd
  obtain ⟨seen, -, hexecutes⟩ := hclaim _ _ _ _ _ _ _ _ _ (building_langState _) hgives hm hlink
    ha.trailingSlash target e docs hd t.world w₁ w₂ {} found executor
    ⟨fun _ _ h => h, fun _ _ h => h⟩ rfl rfl (by rw [ha.locals]; simp)
    (fun other ho => ha.others _ ho.mem_matchers) hsource hlibrary hexecutor 0
  -- Nothing was executed afterwards.
  have hone := hexecutes.handled ha.tally
  rw [ha.before] at hone
  exact absurd (hone.symm.trans ha.after) (by decide)

end Assembly

end RequestRouting
