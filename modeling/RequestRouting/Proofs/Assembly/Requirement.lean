import RequestRouting.Proofs.Assembly.Atomicity
import RequestRouting.Proofs.Assembly.Blame
import RequestRouting.Proofs.Documents.PassThrough

/-!
# Dispatches require a manual resource

What is registered while descriptors are resolved is that of the nodes among them, wherever they
stand. An application is short of a manual resource once all of them are resolved exactly if there
is a dispatch among them, and no manual resource. Nothing else can go wrong then, unless the root
directory of a resource is something else than a directory.
-/

namespace RequestRouting

variable {registry : Registry} {r r' : Registered} {sites : List CheckSite} {check : Check}

/-! What checks register. -/

section Registering

/-- Whether a check is that of a node which is registered. -/
def Check.isRegistering : Check → Bool
  | .node (.manual _) | .node (.templates _) | .node (.dispatch _) => true
  | _ => false

/-- What a check that passes registers. -/
inductive Registers (r : Registered) : Check → Registered → Prop where
  | manual (node : ManualNode) (h : r.manual = none) :
      Registers r (.node (.manual node)) { r with manual := some node }
  | manualAgain (node : ManualNode) (h : r.manual.isSome = true) :
      Registers r (.node (.manual node)) r
  | templates (node : TemplatesNode) (h : r.templates = none) :
      Registers r (.node (.templates node)) { r with templates := some node }
  | templatesAgain (node : TemplatesNode) (h : r.templates.isSome = true) :
      Registers r (.node (.templates node)) r
  | dispatch (node : DispatchNode) :
      Registers r (.node (.dispatch node))
        { r with dispatch := r.dispatch.reference node.dispatcher }
  | nothing {check : Check} (h : check.isRegistering = false) : Registers r check r

theorem registers_of_check {n : Node} (h : n.check registry r = .ok r') :
    Registers r (.node n) r' := by
  cases n with
  | manual node =>
    simp only [Node.check] at h
    split at h
    · rename_i hm
      obtain rfl := Except.ok.inj h
      exact .manual node hm
    · rename_i first hm
      split at h
      · obtain rfl := Except.ok.inj h
        exact .manualAgain node (by rw [hm]; rfl)
      · cases h
  | templates node =>
    simp only [Node.check] at h
    split at h
    · rename_i ht
      obtain rfl := Except.ok.inj h
      exact .templates node ht
    · rename_i first ht
      split at h
      · obtain rfl := Except.ok.inj h
        exact .templatesAgain node (by rw [ht]; rfl)
      · cases h
  | dispatch node =>
    obtain rfl := Except.ok.inj h
    exact .dispatch node
  | router node | assets pipeline node =>
    simp only [Node.check] at h
    split at h
    · cases h
    · obtain rfl := Except.ok.inj h
      exact .nothing rfl
  | status node | resource node =>
    simp only [Node.check] at h
    split at h
    · obtain rfl := Except.ok.inj h
      exact .nothing rfl
    · cases h
  | _ =>
    obtain rfl := Except.ok.inj h
    exact .nothing rfl

theorem registers_of_run (h : check.run registry r = .ok r') : Registers r check r' := by
  cases check with
  | node n => exact registers_of_check h
  | prebuilt name =>
    obtain rfl := Except.ok.inj h
    exact .nothing rfl
  | key text =>
    unfold Check.run at h
    dsimp only at h
    split at h
    · obtain rfl := Except.ok.inj h
      exact .nothing rfl
    · cases h
  | matcher text =>
    unfold Check.run at h
    dsimp only at h
    split at h
    · cases h
    · obtain rfl := Except.ok.inj h
      exact .nothing rfl

/-- What holds of what is registered after checks that pass held before, or is due to one of them,
if that is so for every single check. -/
theorem exists_of_passAll {f : Registered → Prop} {g : Check → Prop}
    (hstep : ∀ {check r r'}, Registers r check r' → f r' → f r ∨ g check)
    (h : passAll registry r sites = .ok r') (hf : f r') : f r ∨ ∃ site ∈ sites, g site.check := by
  induction sites generalizing r with
  | nil =>
    obtain rfl := Except.ok.inj h
    exact .inl hf
  | cons site rest ih =>
    rw [passAll] at h
    cases hrun : site.check.run registry r with
    | error e =>
      rw [hrun] at h
      cases h
    | ok r₁ =>
      rw [hrun] at h
      rcases ih h with hf | ⟨other, hmem, hg⟩
      · exact (hstep (registers_of_run hrun) hf).imp_right fun hg =>
          ⟨site, List.mem_cons_self, hg⟩
      · exact .inr ⟨other, List.mem_cons_of_mem _ hmem, hg⟩

/-- What held before checks that pass, or is due to one of them, holds afterwards, if that is so for
every single check. -/
theorem of_passAll {f : Registered → Prop} {g : Check → Prop}
    (hstep : ∀ {check r r'}, Registers r check r' → f r ∨ g check → f r')
    (h : passAll registry r sites = .ok r') (hf : f r ∨ ∃ site ∈ sites, g site.check) : f r' := by
  induction sites generalizing r with
  | nil =>
    obtain rfl := Except.ok.inj h
    exact hf.resolve_right nofun
  | cons site rest ih =>
    rw [passAll] at h
    cases hrun : site.check.run registry r with
    | error e =>
      rw [hrun] at h
      cases h
    | ok r₁ =>
      rw [hrun] at h
      refine ih h ?_
      rcases hf with hf | ⟨other, hmem, hg⟩
      · exact .inl (hstep (registers_of_run hrun) (.inl hf))
      · rcases List.mem_cons.mp hmem with rfl | hmem
        · exact .inl (hstep (registers_of_run hrun) (.inr hg))
        · exact .inr ⟨other, hmem, hg⟩

theorem passAll_iff {f : Registered → Prop} {g : Check → Prop}
    (hstep : ∀ {check r r'}, Registers r check r' → (f r' ↔ f r ∨ g check))
    (h : passAll registry r sites = .ok r') : f r' ↔ f r ∨ ∃ site ∈ sites, g site.check :=
  ⟨exists_of_passAll (fun hr => (hstep hr).mp) h, of_passAll (fun hr => (hstep hr).mpr) h⟩

/-- A manual resource is registered exactly if one of the nodes is one. -/
theorem isSome_manual_iff (h : passAll registry r sites = .ok r') : r'.manual.isSome = true ↔
    r.manual.isSome = true ∨ ∃ site ∈ sites, ∃ node, site.check = .node (.manual node) := by
  refine passAll_iff (f := fun r => r.manual.isSome = true)
    (g := fun check => ∃ node, check = .node (.manual node)) (fun hr => ?_) h
  cases hr with
  | manual node _ => exact iff_of_true rfl (.inr ⟨node, rfl⟩)
  | manualAgain node hm => exact iff_of_true hm (.inl hm)
  | templates | templatesAgain | dispatch => exact (or_iff_left fun ⟨_, he⟩ => by cases he).symm
  | nothing hn => exact (or_iff_left fun ⟨_, he⟩ => by rw [he] at hn; cases hn).symm

theorem referenced_reference (t : DispatchTable) (name? : Option String) :
    (t.reference name?).referenced ≠ [] := by
  obtain ⟨entry, hfound, href⟩ :=
    DispatchTable.find?_mark_self (name?.getD t.defaultName) t.entries
  have hmem : entry ∈ (t.reference name?).entries.filter (·.referenced) :=
    List.mem_filter.mpr ⟨List.mem_of_find?_eq_some hfound, href⟩
  exact List.ne_nil_of_mem (List.mem_map_of_mem hmem)

/-- No dispatcher is referred to at first. -/
theorem referenced_ofDispatchers (dispatchers : Dispatchers) :
    (DispatchTable.ofDispatchers dispatchers).referenced = [] := by
  have hn : (DispatchTable.ofDispatchers dispatchers).entries.filter (·.referenced) = [] := by
    refine List.filter_eq_nil_iff.mpr fun entry hentry => ?_
    obtain ⟨dispatcher, -, rfl⟩ := List.mem_map.mp hentry
    exact Bool.false_ne_true
  rw [DispatchTable.referenced, hn, List.map_nil]

/-- Dispatchers are referred to exactly if one of the nodes is a dispatch. -/
theorem referenced_iff (h : passAll registry r sites = .ok r') : r'.dispatch.referenced ≠ [] ↔
    r.dispatch.referenced ≠ [] ∨ ∃ site ∈ sites, ∃ node, site.check = .node (.dispatch node) := by
  refine passAll_iff (f := fun r => r.dispatch.referenced ≠ [])
    (g := fun check => ∃ node, check = .node (.dispatch node)) (fun hr => ?_) h
  cases hr with
  | dispatch node =>
    exact iff_of_true (referenced_reference _ _) (.inr ⟨node, rfl⟩)
  | manual | manualAgain | templates | templatesAgain =>
    exact (or_iff_left fun ⟨_, he⟩ => by cases he).symm
  | nothing hn => exact (or_iff_left fun ⟨_, he⟩ => by rw [he] at hn; cases hn).symm

/-- The root directory of documents that a node is configured with. -/
def Node.documentRoot? : Node → Option String
  | .manual node => some (node.root.getD "resources")
  | .templates node => some (node.root.getD "resources")
  | _ => none

/-- The root directories of the resources that are registered. -/
def Registered.HasRoot (root : String) (r : Registered) : Prop :=
  r.manual.map (·.root.getD "resources") = some root ∨
    r.templates.map (·.root.getD "resources") = some root

/-- A resource is registered with the root directory of one of the nodes. -/
theorem exists_of_hasRoot {root : String} (h : passAll registry r sites = .ok r')
    (hroot : r'.HasRoot root) : r.HasRoot root ∨
      ∃ site ∈ sites, ∃ n, site.check = .node n ∧ n.documentRoot? = some root := by
  refine exists_of_passAll (f := Registered.HasRoot root)
    (g := fun check => ∃ n, check = .node n ∧ n.documentRoot? = some root) (fun hr hf => ?_) h hroot
  cases hr with
  | manual node _ =>
    exact hf.elim (fun hm => .inr ⟨.manual node, rfl, hm⟩) fun ht => .inl (.inr ht)
  | templates node _ =>
    exact hf.elim (fun hm => .inl (.inl hm)) fun ht => .inr ⟨.templates node, rfl, ht⟩
  | manualAgain | templatesAgain | dispatch | nothing => exact .inl hf

end Registering

namespace Assembly

/-! Finishing an application fails for want of a manual resource only. -/

section Finishing

variable {s t : State}

/-- Whether a path leads to a directory, or to nothing at all. -/
def IsFolderOrMissing (files : FileTree) (path : String) : Prop :=
  files.exists? path = true → files.isFolder path = true

instance (files : FileTree) (path : String) : Decidable (IsFolderOrMissing files path) :=
  inferInstanceAs (Decidable (_ → _))

/-- Whether a directory of documents may be the root of a resource. -/
def State.AcceptsRoot (s : State) (root : Option String) : Prop :=
  IsFolderOrMissing s.world.files (s.context.path (root.getD "resources"))

theorem exists_gives_compressed (isCompressed : Bool) (handler : Handler) (s : State) :
    ∃ h, (compressed isCompressed handler).Gives s h s := by
  unfold compressed
  cases isCompressed with
  | true => exact ⟨_, rfl⟩
  | false => exact ⟨_, rfl⟩

theorem gives_documentRoot_self {root : Option String} (h : s.AcceptsRoot root) :
    (documentRoot root).Gives s (s.context.path (root.getD "resources")) s := by
  have hcond : (s.world.files.exists? (s.context.path (root.getD "resources")) &&
      !s.world.files.isFolder (s.context.path (root.getD "resources"))) = false := by
    cases he : s.world.files.exists? (s.context.path (root.getD "resources")) with
    | false => rfl
    | true => rw [h he]; rfl
  simp only [documentRoot, gives_bind, gives_get]
  refine ⟨s, s, ⟨rfl, rfl⟩, ?_⟩
  rw [hcond]
  exact gives_pure.mpr ⟨rfl, rfl⟩

theorem exists_gives_buildManual {node : ManualNode} (h : s.AcceptsRoot node.root) :
    ∃ handler, (buildManual node).Gives s handler { s with world := s.world.addLookups.2 } := by
  simp only [buildManual, gives_bind, gives_context, gives_add]
  obtain ⟨handler, hc⟩ := exists_gives_compressed (node.compress.getD true) _ _
  exact ⟨handler, _, s, gives_documentRoot_self h, _, _, ⟨rfl, rfl⟩, _, _, ⟨rfl, rfl⟩, hc⟩

theorem exists_gives_buildTemplates {node : TemplatesNode} (h : s.AcceptsRoot node.root) :
    ∃ handler, (buildTemplates node).Gives s handler { s with world := s.world.addLookups.2 } := by
  simp only [buildTemplates, gives_bind, gives_context, gives_add]
  obtain ⟨handler, hc⟩ := exists_gives_compressed (node.compress.getD true) _ _
  exact ⟨handler, _, s, gives_documentRoot_self h, _, _, ⟨rfl, rfl⟩, _, _, ⟨rfl, rfl⟩, hc⟩

/-- The manual resource is built if there is one, and required if there are dispatches. -/
theorem finishManual_error_iff {c : Context}
    (hm : ∀ m, c.manual = some m → s.AcceptsRoot m.config.root) (e : Error) :
    (finishManual c s).1 = .error e ↔
      e = .manualRequired c.name ∧ c.dispatch.referenced ≠ [] ∧ c.manual = none := by
  unfold finishManual
  cases hc : c.manual with
  | none =>
    dsimp only
    cases href : c.dispatch.referenced with
    | nil => exact iff_of_false nofun fun h => h.2.1 rfl
    | cons target rest =>
      constructor
      · intro h
        exact ⟨(Except.error.inj h).symm, List.cons_ne_nil _ _, rfl⟩
      · rintro ⟨rfl, -⟩
        rfl
  | some m =>
    dsimp only
    let table := s.context.dispatch.bind m.config.mount
    let published : State :=
      { context := { s.context with dispatch := table }
        world := { s.world with
          tables := s.world.tables.setIfInBounds s.context.table table } }
    have hpublished : (publishTargets m.config.mount).Gives s () published := rfl
    have hroot : published.AcceptsRoot (m.config.withTargets c.dispatch.referenced).root := by
      rw [ManualNode.root_withTargets]
      exact hm m hc
    obtain ⟨handler, hbuild⟩ := exists_gives_buildManual hroot
    refine iff_of_false (fun h => ?_) nofun
    rw [bind_apply_of_gives hpublished, bind_apply_of_gives hbuild] at h
    cases h

/-- Finishing fails exactly if there are dispatches without a manual resource, provided that the
roots of the resources are no files. -/
theorem finish_error_iff (hm : ∀ m, s.context.manual = some m → s.AcceptsRoot m.config.root)
    (ht : ∀ m, s.context.templates = some m → s.AcceptsRoot m.config.root) (e : Error) :
    (finish s).1 = .error e ↔ e = .manualRequired s.context.name ∧
      s.context.dispatch.referenced ≠ [] ∧ s.context.manual = none := by
  rw [finish_eq, context_bind_apply]
  cases hc : s.context.templates with
  | none => exact finishManual_error_iff hm e
  | some templates =>
    obtain ⟨handler, hbuild⟩ := exists_gives_buildTemplates (ht templates hc)
    let built : State := { s with world :=
      s.world.addLookups.2.updateSlot templates.slot (Slot.bind handler) }
    have hbound : (Assembly.bind templates.slot handler).Gives
      { s with world := s.world.addLookups.2 } () built := rfl
    dsimp only
    rw [bind_apply_of_gives hbuild, bind_apply_of_gives hbound]
    -- neither the context nor the files have changed
    exact @finishManual_error_iff built s.context hm e

end Finishing

/-- Whether a node stands anywhere in a route table, however deep inside of others. -/
def StandsIn (n : Node) (table : Ordered Descriptor) : Prop :=
  ∃ site ∈ sitesOrdered table, site.check = .node n

/-- A route table of catalogue nodes that is resolved has left behind what its checks register. -/
theorem passAll_of_gives {table : Ordered Descriptor} (hc : AllCatalogue (sitesOrdered table))
    {prebuilt : ResolvePrebuilt} {router : Router × List Handler} {s t : State}
    (hg : (resolveOrdered prebuilt table "/" .best none).Gives s router t) :
    passAll s.context.registry s.context.registered (sitesOrdered table) =
      .ok t.context.registered := by
  have hf := follows_table hc prebuilt
  cases hp : passAll s.context.registry s.context.registered (sitesOrdered table) with
  | error p =>
    have hfail := hf.fails s p.1 p.2 hp
    rw [show resolveOrdered prebuilt table "/" .best none s = (.ok router, t) from hg] at hfail
    cases hfail
  | ok r =>
    obtain ⟨a, u, ha, -, hr, -⟩ := hf.gives s r hp
    obtain ⟨-, rfl⟩ := Prod.mk.inj (ha.symm.trans hg)
    rw [hr]

/-- Once the route table of an application is resolved, the application can't be finished exactly if
there is a dispatch in the table and no manual resource. -/
theorem manualRequired_iff {config : Config} (hc : AllCatalogue (sitesOrdered config.routes))
    {w : World} {name root : String} {registry : Registry} {fuel : Nat}
    {router : Router × List Handler} {t : State}
    (hg : (resolveOrdered (resolvePrebuilt fuel) config.routes "/" .best none).Gives
      (Component.start w name root config registry) router t)
    (hroots : ∀ n path, StandsIn n config.routes → n.documentRoot? = some path →
      IsFolderOrMissing w.files (Path.join root path)) (e : Error) :
    (finish t).1 = .error e ↔ e = .manualRequired name ∧
      (∃ node, StandsIn (.dispatch node) config.routes) ∧
      ∀ node, ¬StandsIn (.manual node) config.routes := by
  have hpass := passAll_of_gives hc hg
  have hframe : SameFrame (Component.start w name root config registry) t :=
    (leads_resolveOrdered isClosed_sameFrame (leads_resolvePrebuilt isClosed_sameFrame fuel)
      config.routes "/" .best none).gives hg
  have hfiles : t.world.files = w.files := hframe.files.trans
    (isApart_create name root config.settings registry config.dispatchers w).world.files
  have haccepts (path? : Option String)
      (h : t.context.registered.HasRoot (path?.getD "resources")) : t.AcceptsRoot path? := by
    obtain h | ⟨site, hsite, n, hn, hroot⟩ := exists_of_hasRoot hpass h
    · exact h.elim nofun nofun
    · have hfolder := hroots n _ ⟨site, hsite, hn⟩ hroot
      rw [State.AcceptsRoot, hfiles, hframe.context]
      exact hfolder
  have hmanual : t.context.manual = none ↔ ∀ node, ¬StandsIn (.manual node) config.routes := by
    have hsome := (isSome_manual_iff hpass).trans (or_iff_right nofun)
    rw [Context.registered, Option.isSome_map] at hsome
    rw [← Option.not_isSome_iff_eq_none, hsome]
    constructor
    · rintro h node ⟨site, hsite, hn⟩
      exact h ⟨site, hsite, node, hn⟩
    · rintro h ⟨site, hsite, node, hn⟩
      exact h node ⟨site, hsite, hn⟩
  have hdispatch : t.context.dispatch.referenced ≠ [] ↔
      ∃ node, StandsIn (.dispatch node) config.routes := by
    have hfirst : ¬(Component.start w name root config
        registry).context.registered.dispatch.referenced ≠ [] :=
      not_not.mpr (referenced_ofDispatchers config.dispatchers)
    refine ((referenced_iff hpass).trans (or_iff_right hfirst)).trans ?_
    constructor
    · rintro ⟨site, hsite, node, hn⟩
      exact ⟨node, site, hsite, hn⟩
    · rintro ⟨node, site, hsite, hn⟩
      exact ⟨site, hsite, node, hn⟩
  have hname : t.context.name = name := by rw [hframe.context]; rfl
  rw [← hmanual, ← hdispatch, ← hname]
  refine finish_error_iff (fun m hm => haccepts _ (.inl ?_)) (fun m hm => haccepts _ (.inr ?_)) e
  · rw [Context.registered, hm]
    rfl
  · rw [Context.registered, hm]
    rfl

/-- A dispatch in an array, a router and a wrapper, with template nodes but no manual resource. -/
def dispatchOnly : Config where
  routes := ⟨[
    ("/t*", .node (.templates {})),
    ("/a*", .chain [.hidden, .node (.router { routes := ⟨[
      ("/*", .node (.cors { next := .node (.dispatch { id := "js" }) }))]⟩ })])]⟩

theorem manualRequired_iff_dispatchOnly : ∃ router t,
    (resolveOrdered (resolvePrebuilt 1) dispatchOnly.routes "/" .best none).Gives
      (Component.start {} "shop" "." dispatchOnly {}) router t ∧
    (finish t).1 = .error (.manualRequired "shop") := by
  have hc : AllCatalogue (sitesOrdered dispatchOnly.routes) := by decide +kernel
  have hok : (resolveOrdered (resolvePrebuilt 1) dispatchOnly.routes "/" .best none
      (Component.start {} "shop" "." dispatchOnly {})).1.toOption.isSome = true := by
    decide +kernel
  obtain ⟨router, hr⟩ := Option.isSome_iff_exists.mp hok
  have hg : (resolveOrdered (resolvePrebuilt 1) dispatchOnly.routes "/" .best none).Gives
      (Component.start {} "shop" "." dispatchOnly {}) router _ :=
    Prod.ext (eq_ok_of_toOption hr) rfl
  have hroots : ∀ site ∈ sitesOrdered dispatchOnly.routes, (match site.check with
      | .node n => n.documentRoot?.all fun path => IsFolderOrMissing {} (Path.join "." path)
      | _ => true) = true := by decide +kernel
  have hmanual : ∀ site ∈ sitesOrdered dispatchOnly.routes, (match site.check with
      | .node (.manual _) => true
      | _ => false) = false := by decide +kernel
  refine ⟨router, _, hg, (manualRequired_iff hc hg ?_ _).mpr ⟨rfl, ?_, ?_⟩⟩
  · rintro n path ⟨site, hsite, hn⟩ hroot
    have h := hroots site hsite
    rw [hn] at h
    dsimp only at h
    rw [hroot] at h
    exact of_decide_eq_true h
  · exact ⟨{ id := "js" }, ⟨["/a*", "/*"], _⟩, List.mem_of_getElem? (i := 7) rfl, rfl⟩
  · rintro node ⟨site, hsite, hn⟩
    have h := hmanual site hsite
    rw [hn] at h
    cases h

end Assembly

end RequestRouting
