import RequestRouting.Proofs.Assembly.Root
import RequestRouting.Proofs.Route.Expansion

/-!
# Hidden targets

The target of a marked capture is hidden as a route, while requests are captured to the path that it
expands to. So a target with a query is hidden at no path, and variables are hidden with values that
fit into a segment only.
-/

namespace RequestRouting

/-- A capture of a configuration into its own application that is marked, with its target. -/
inductive Config.Marks (config : Config) : String → Capture → Prop where
  | node {n : CaptureNode} (hn : n ∈ capturesOrdered config.routes) (hm : n.isMarked = true)
      (ha : n.application = none) : Marks config n.target (.ofNode n n.target)
  | page {code : Nat} {uri target : String} (he : (code, uri) ∈ config.errors.entries)
      (hm : Text.dropTail? "!" uri = some target) : Marks config target (.ofUri target)

variable {config : Config} {target : String} {c : Capture}

theorem Config.Marks.mem_hiddenTargets (h : config.Marks target c) :
    target ∈ config.hiddenTargets := by
  cases h with
  | node hn hm _ =>
    refine List.mem_append_left _ (List.mem_map.mpr ⟨_, List.mem_filter.mpr ⟨hn, ?_⟩, rfl⟩)
    exact hm
  | page he hm => exact List.mem_append_right _ (List.mem_filterMap.mpr ⟨_, he, hm⟩)

theorem Config.Marks.uri_eq (h : config.Marks target c) : c.uri = .parse target := by
  cases h <;> rfl

theorem Request.path_of_captured? {req req' : Request} {uri : String} {record : Bool}
    (h : req.captured? uri record = some req') : req'.uri.path = (Uri.parse uri).path := by
  unfold Request.captured? at h
  generalize (if record then
    { req with attributes := req.attributes.insertIfAbsent Attribute.captured req.reference }
    else req) = recorded at h
  dsimp only at h
  split at h
  · cases h
  · obtain rfl := Option.some.inj h
    rfl

/-- The path a request is captured to. -/
theorem Capture.path_of_forward? {req req' : Request} (h : c.forward? req = some req') :
    req'.uri.path = (Uri.parse (c.uri.expand req)).path := Request.path_of_captured? h

theorem Router.run_of_conceals {r : Router} (hr : r.IsRegular) (hm : r.mode = .best)
    (handlers : List Handler) {req : Request} (hi : req.isInternal = false)
    (h : r.Conceals req.uri.path) (jump : Jump) (w : World) :
    (Handler.router r handlers).run jump req w = some (.ofStatus .notFound, w) := by
  rw [Handler.run, r.serve_of_conceals hr _ hi h, Router.advance]
  simp [hm]

namespace Assembly

/-- A request from outside for the path that a request is captured to is answered with 404 exactly
if a hidden route covers that path, and otherwise as if no routes were hidden. A target that expands
without queries and escapes, read as a route, covers that path exactly if all values of its
variables fit into a segment. -/
theorem conceals_target {config : Config} {s t : State} {app : Application}
    (h : (application config).Gives s app t) (hs : s.context.hidden = []) :
    ∃ manual router handlers pages,
      app.handler = .layer .applicationRoot
        (rootHandler t.context.application (.router router handlers) pages) ∧
      (∀ e ∈ router.hidden, Reason config manual e.route) ∧
      ∀ target c, config.Marks target c → ∃ route, Route.parse target = .ok route ∧
        ∀ req req', c.forward? req = some req' →
          (route.Covers req'.uri.path → router.Conceals req'.uri.path) ∧
          (∀ m, route.matcher = .ok m → '*' ∉ target.toList →
            '?' ∉ (c.uri.expand req).toList → '%' ∉ (c.uri.expand req).toList →
            (route.Covers req'.uri.path ↔
              ∀ key ∈ route.keys, Pattern.FitsSegment (Template.value req key))) ∧
          ∀ outer : Request, outer.isInternal = false → outer.uri.path = req'.uri.path →
            ∀ jump w,
              (router.Conceals req'.uri.path →
                (Handler.router router handlers).run jump outer w =
                  some (.ofStatus .notFound, w)) ∧
              (¬router.Conceals req'.uri.path →
                (Handler.router router handlers).run jump outer w =
                  (Handler.router { router with hidden := [] } handlers).run jump outer w) := by
  obtain ⟨manual, router, handlers, pages, happ, hroot, htargets⟩ := exists_root h hs
  refine ⟨manual, router, handlers, pages, happ, hroot.reason, fun target c hc => ?_⟩
  obtain ⟨route, hroute, hcovers⟩ := htargets target hc.mem_hiddenTargets
  refine ⟨route, hroute, fun req req' hf => ⟨hcovers _, ?_, ?_⟩⟩
  · intro m hm hstar hq hp
    rw [Capture.path_of_forward? hf]
    rw [hc.uri_eq] at hq hp ⊢
    exact Route.covers_expand_iff hroute hm req hstar hq hp
  · intro outer hi hpath jump w
    rw [← hpath]
    constructor
    · exact fun hconceals =>
        Router.run_of_conceals hroot.regular hroot.mode handlers hi hconceals jump w
    · intro hn
      rw [Handler.run, Handler.run]
      exact Router.serve_of_not_conceals hroot.regular _ hn w

/-- A capture to a target with a query. -/
def queryNode : CaptureNode where
  uri := "/b/?x=1!"

/-- A capture to a target with a variable. -/
def itemNode : CaptureNode where
  uri := "/item/\x7bid\x7d/!"

/-- A configuration with both captures. -/
def shopConfig : Config where
  routes := ⟨[("/b/", .node (.status { code := 204 })), ("/go/", .node (.capture queryNode)),
    ("/to/\x7bid\x7d", .node (.capture itemNode))]⟩

theorem marks_queryNode : shopConfig.Marks "/b/?x=1" (.ofNode queryNode "/b/?x=1") := by
  have ht : queryNode.target = "/b/?x=1" := rfl
  rw [← ht]
  exact .node (List.mem_cons_self) rfl rfl

theorem marks_itemNode :
    shopConfig.Marks "/item/\x7bid\x7d/" (.ofNode itemNode "/item/\x7bid\x7d/") := by
  have ht : itemNode.target = "/item/\x7bid\x7d/" := rfl
  rw [← ht]
  exact .node (List.mem_cons_of_mem _ List.mem_cons_self) rfl rfl

/-- A request that the second capture takes to an item. -/
def itemRequest : Request where
  attributes := ⟨[("id", "7")]⟩

theorem conceals_target_shop : ∃ app t, (application shopConfig).Gives (freshState {}) app t ∧
    (freshState {}).context.hidden = [] ∧ ∃ router handlers pages,
      app.handler = .layer .applicationRoot
        (rootHandler t.context.application (.router router handlers) pages) ∧
      ∀ jump w, (Handler.router router handlers).run jump { uri := ⟨"/item/7/", none⟩ } w =
        some (.ofStatus .notFound, w) := by
  have hn : (answerOf shopConfig {} {}).isSome = true := by decide +kernel
  obtain ⟨res, hres⟩ := Option.isSome_iff_exists.mp hn
  obtain ⟨app, t, -, happ, -⟩ := exists_of_answerOf hres
  obtain ⟨-, router, handlers, pages, hhandler, -, htargets⟩ := conceals_target happ rfl
  refine ⟨app, t, happ, rfl, router, handlers, pages, hhandler, fun jump w => ?_⟩
  obtain ⟨route, hroute, hreq⟩ := htargets _ _ marks_itemNode
  have hf : ((Capture.ofNode itemNode "/item/\x7bid\x7d/").forward? itemRequest).map (·.uri.path) =
      some "/item/7/" := by decide +kernel
  obtain ⟨req', hforward, hpath⟩ := Option.map_eq_some_iff.mp hf
  obtain ⟨hcovers, hplain, houter⟩ := hreq itemRequest req' hforward
  have hr : Route.parse "/item/\x7bid\x7d/" = .ok ⟨"/item/\x7bid\x7d/", .exact⟩ := by decide +kernel
  obtain rfl := Except.ok.inj (hroute.symm.trans hr)
  have hm : Route.matcher ⟨"/item/\x7bid\x7d/", .exact⟩ =
      .ok ⟨["/item/".toList.map .char ++ [.param "id".toList [], .char '/']]⟩ := by decide +kernel
  have hk : Route.keys ⟨"/item/\x7bid\x7d/", .exact⟩ = ["id"] := by decide +kernel
  have hconceals : router.Conceals req'.uri.path := by
    apply hcovers
    rw [hplain _ hm (by decide +kernel) (by decide +kernel) (by decide +kernel), hk]
    intro key hkey
    obtain rfl := List.mem_singleton.mp hkey
    exact ⟨by decide +kernel, by decide +kernel⟩
  exact (houter { uri := ⟨"/item/7/", none⟩ } (by decide +kernel) hpath.symm jump w).1 hconceals

/-- The target with a query isn't hidden: the path that requests are captured to is answered like
any other. -/
theorem not_hides_query : ¬∀ (config : Config) (s t : State) (app : Application),
    (application config).Gives s app t → s.context.hidden = [] →
    ∀ target c, config.Marks target c → ∀ req req', c.forward? req = some req' →
    ∀ outer : Request, outer.isInternal = false → outer.uri.path = req'.uri.path →
    ∀ fuel res w, app.serve fuel outer t.world = some (res, w) → res.status = .notFound := by
  intro hclaim
  have hn : (answerOf shopConfig {} { uri := ⟨"/b/", none⟩ }).map (·.status) =
      some .noContent := by decide +kernel
  obtain ⟨res, hres, hstatus⟩ := Option.map_eq_some_iff.mp hn
  obtain ⟨app, t, w, happ, hserve⟩ := exists_of_answerOf hres
  have hf : ((Capture.ofNode queryNode "/b/?x=1").forward? {}).map (·.uri.path) =
      some "/b/" := by decide +kernel
  obtain ⟨req', hforward, hpath⟩ := Option.map_eq_some_iff.mp hf
  have hfound := hclaim shopConfig (freshState {}) t app happ rfl _ _ marks_queryNode {} req'
    hforward { uri := ⟨"/b/", none⟩ } (by decide +kernel) hpath.symm 2 res w hserve
  rw [hfound] at hstatus
  cases hstatus

end Assembly

end RequestRouting
