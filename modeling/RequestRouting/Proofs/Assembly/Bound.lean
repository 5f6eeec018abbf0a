import RequestRouting.Proofs.Assembly.Finished
import RequestRouting.Proofs.Dispatch.Sharing

/-!
# Binding the targets of dispatches

Handlers have copies of the targets of their dispatchers long before the manual resource is mounted,
and it isn't known which ones are going to be referred to. Once the application is finished, exactly
the copies that were handed out are bound, wherever they are.
-/

namespace RequestRouting

namespace DispatchTable

/-- What is known of a dispatch table once the given names were referred to. -/
structure IsAfter (d : Dispatchers) (named : List String) (t : DispatchTable) : Prop where
  /-- No name is repeated. -/
  names : t.names.Nodup
  /-- All dispatchers that are configured keep their places and their values, and the other ones
  come after them, in the order of the first references. -/
  values : t.values =
    (d.entries.entries.map fun (name, dispatcher) =>
      (.ofDispatcher name dispatcher, dispatcher.extra)) ++
    (named.filter (· ∉ d.entries.keys)).eraseDups.map fun name =>
      (.ofDispatcher name {}, ({} : Dispatcher).extra)
  /-- The targets that are referenced are those that were referred to, in the order of the table. -/
  referenced : t.referenced = t.targets.filter (·.name ∈ named)
  /-- All that was referred to is in the table. -/
  known : ∀ name ∈ named, name ∈ t.names

variable {d : Dispatchers}

theorem isAfter_referenceAll (h : d.entries.keys.Nodup) (refs : List (Option String)) :
    IsAfter d (refs.map (·.getD (d.default.getD javascript)))
      ((ofDispatchers d).referenceAll refs) := by
  have hnames := nodup_names_ofDispatchers h
  have hkeys : (ofDispatchers d).names = d.entries.keys := by
    rw [names, ofDispatchers, List.map_map]
    rfl
  refine ⟨nodup_names_referenceAll hnames refs, ?_, referenced_referenceAll h refs,
    fun _ hn => mem_names_of_mem_named hnames hn⟩
  rw [values_referenceAll hnames, unknown, hkeys, values, ofDispatchers, List.map_map]
  rfl

end DispatchTable

namespace SharedTable

/-- What is known of targets that were handed out for the given names. -/
structure IsHandedOut (named : List String) (handed : List SharedTarget) (t : SharedTable) :
    Prop where
  /-- For each reference, a target of that name is handed out. -/
  names : handed.map (·.name) = named
  /-- All targets of one name, and no other ones, have the cell in common. -/
  cells : ∀ a ∈ handed, ∀ b ∈ handed, a.cell = b.cell ↔ a.name = b.name
  /-- What is found in the table under the name of a target is what is seen of it. -/
  found : ∀ a ∈ handed, t.view.get? a.name = some (a.view t.cells)

variable {t : SharedTable} {handed : List SharedTarget}

theorem IsSound.isHandedOut (h : t.IsSound) (hm : ∀ a ∈ handed, a ∈ t.targets) :
    t.IsHandedOut (handed.map (·.name)) handed := by
  refine ⟨rfl, fun a ha b hb => ⟨fun hc => ?_, fun hn => ?_⟩, fun a ha => ?_⟩
  · rw [h.eq_of_cell (hm a ha) (hm b hb) hc]
  · rw [h.eq_of_name (hm a ha) (hm b hb) hn]
  · have hmem : a.view t.cells ∈ t.view.targets := by
      rw [targets_view]
      exact List.mem_map_of_mem (hm a ha)
    exact DispatchTable.get?_of_mem (by rw [names_view]; exact h.names) hmem

end SharedTable

namespace Assembly

variable {s t : State} {m : Singleton ManualNode} {mount : Option (String × Nat)}

/-- Building the template resource leaves the context and the tables alone. -/
theorem exists_finishManual (h : finish.Gives s mount t) : ∃ u, u.context = s.context ∧
    u.world.tables = s.world.tables ∧ (finishManual s.context).Gives u mount t := by
  rw [finish_eq] at h
  simp only [gives_bind, gives_context] at h
  obtain ⟨c, _, ⟨rfl, rfl⟩, h⟩ := h
  cases ht : s.context.templates with
  | none =>
    rw [ht] at h
    exact ⟨s, rfl, rfl, h⟩
  | some templates =>
    simp only [ht, gives_bind] at h
    obtain ⟨handler, v, hbuild, _, u, hbind, h⟩ := h
    obtain ⟨hcontext, hworld, -⟩ := gives_buildTemplates hbuild
    obtain rfl := gives_modify.mp hbind
    refine ⟨_, ?_, ?_, h⟩
    · exact hcontext
    · exact hworld.tables.symm

/-- Finishing an application with a manual resource binds its targets and makes them known. -/
theorem dispatch_of_finish (h : finish.Gives s mount t) (hm : s.context.manual = some m) :
    mount = some (m.config.mount, m.slot) ∧
      t.context.dispatch = s.context.dispatch.bind m.config.mount ∧
      t.world.tables =
        s.world.tables.setIfInBounds s.context.table (s.context.dispatch.bind m.config.mount) := by
  obtain ⟨u, hcontext, htables, h⟩ := exists_finishManual h
  simp only [finishManual, hm, gives_bind, gives_pure] at h
  obtain ⟨_, u₁, hpublish, handler, u₂, hbuild, _, u₃, hbind, rfl, rfl⟩ := h
  simp only [publishTargets, gives_bind, gives_context, gives_modify] at hpublish
  obtain ⟨_, _, ⟨rfl, rfl⟩, rfl⟩ := hpublish
  obtain ⟨hcontext', hworld, -⟩ := gives_buildManual hbuild
  obtain rfl := gives_modify.mp hbind
  refine ⟨rfl, ?_, ?_⟩
  · rw [← hcontext]
    exact congrArg Context.dispatch hcontext'
  · rw [← hcontext, ← htables]
    exact hworld.tables.symm

/-- However dispatchers are referred to, by name or as the default one, a table stays consistent
with its configuration, and all targets that are handed out for a name share one cell for the URI.
Once an application that has such a table and a manual resource is finished, that URI is the one
below the internal URI of the manual resource, for all of them, as well as for what is found in the
table, and no target has a URI that wasn't referred to. -/
theorem targets_of_references {d : Dispatchers} (hd : d.entries.keys.Nodup)
    (refs : List (Option String)) :
    let named := refs.map (·.getD (d.default.getD DispatchTable.javascript))
    let table := (DispatchTable.ofDispatchers d).referenceAll refs
    let handed := ((SharedTable.ofDispatchers d).referenceAll refs).1
    let shared := ((SharedTable.ofDispatchers d).referenceAll refs).2
    table.IsAfter d named ∧ shared.view = table ∧ shared.IsHandedOut named handed ∧
      ∀ s t m mount, s.context.dispatch = table → s.context.manual = some m →
        finish.Gives s mount t →
          let bound := shared.bind m.config.mount
          mount = some (m.config.mount, m.slot) ∧ t.context.dispatch = bound.view ∧
          t.world.tables = s.world.tables.setIfInBounds s.context.table t.context.dispatch ∧
          bound.IsHandedOut named handed ∧
          (∀ a ∈ handed, (a.view bound.cells).uri =
            some (clean (m.config.mount ++ a.dispatcher))) ∧
          ∀ e ∈ t.context.dispatch.entries, e.referenced = false → e.target.uri = none := by
  intro named table handed shared
  obtain ⟨hfirst, hview⟩ := SharedTable.view_ofDispatchers hd
  have hrun : (SharedTable.ofDispatchers d).HandsAll refs handed shared :=
    SharedTable.handsAll_referenceAll hfirst refs
  have htable : shared.view = table := by rw [hrun.view, hview]
  have hnames : handed.map (·.name) = named := by
    rw [hrun.names, hview]
    rfl
  refine ⟨DispatchTable.isAfter_referenceAll hd refs, htable,
    hnames ▸ hrun.sound.isHandedOut hrun.mem, ?_⟩
  intro s t m mount hs hm hfinish bound
  obtain ⟨hmount, hdispatch, htables⟩ := dispatch_of_finish hfinish hm
  have hbound : t.context.dispatch = bound.view := by
    rw [hdispatch, hs, ← htable]
    exact (hrun.sound.view_bind m.config.mount).symm
  have hseen {e : SharedTable.Entry} (he : e ∈ shared.entries) :
      e.referenced = decide (e.target.name ∈ named) ∧ shared.cells[e.target.cell]?.join = none := by
    have hmem : e.view shared.cells ∈ table.entries := by
      rw [← htable]
      exact List.mem_map_of_mem he
    exact DispatchTable.of_mem_entries hd hmem
  refine ⟨hmount, hbound, hdispatch ▸ htables,
    hnames ▸ (hrun.sound.bind m.config.mount).isHandedOut hrun.mem, fun a ha => ?_, ?_⟩
  · obtain ⟨e, he, rfl⟩ := List.mem_map.mp (hrun.mem a ha)
    obtain ⟨hreferenced, hnone⟩ := hseen he
    have hnamed : e.target.name ∈ named := hnames ▸ List.mem_map_of_mem ha
    rw [SharedTarget.view, hrun.sound.join_cells_bind he, hreferenced,
      if_pos (decide_eq_true hnamed), hnone]
    rfl
  · rw [hbound]
    intro e he hreferenced
    obtain ⟨e', he', rfl⟩ := List.mem_map.mp he
    have hcell := hrun.sound.join_cells_bind he' m.config.mount
    rw [show e'.referenced = false from hreferenced, (hseen he').2] at hcell
    exact hcell

/-- Two dispatchers that are configured. -/
def scripting : Dispatchers where
  default := some "python"
  entries := ⟨[("python", { resources := some "/py/" }), ("ruby", { document := some "/rb/" })]⟩

/-- References to one of them, as the default one and by name, and to another dispatcher. -/
def scriptingRefs : List (Option String) := [some "lua", none, some "lua", some "python"]

/-- An application with those references and a manual resource. -/
def scriptingState : State where
  context :=
    { name := "shop", root := "."
      manual := some { config := {}, slot := 0 }
      dispatch := (DispatchTable.ofDispatchers scripting).referenceAll scriptingRefs }
  world := { slots := #[.unbound], tables := #[{}] }

theorem targets_of_references_scripting :
    ((SharedTable.ofDispatchers scripting).referenceAll scriptingRefs).1.map
        (fun a => (a.name, a.cell)) =
      [("lua", 2), ("python", 0), ("lua", 2), ("python", 0)] ∧
    ∃ t, finish.Gives scriptingState (some ("/_manual/", 0)) t ∧
      t.context.dispatch.targets.map (fun target => (target.name, target.uri)) =
        [("python", some "/_manual/dispatchers/python/"), ("ruby", none),
          ("lua", some "/_manual/dispatchers/lua/")] := by
  have hok : (finish scriptingState).1.toOption = some (some ("/_manual/", 0)) := by decide +kernel
  have hfinish : finish.Gives scriptingState (some ("/_manual/", 0)) (finish scriptingState).2 :=
    Prod.ext (eq_ok_of_toOption hok) rfl
  obtain ⟨-, -, -, hbinds⟩ :=
    targets_of_references (d := scripting) (by decide) scriptingRefs
  obtain ⟨-, hdispatch, -⟩ := hbinds scriptingState _ ⟨{}, 0⟩ _ rfl rfl hfinish
  refine ⟨by decide, _, hfinish, ?_⟩
  rw [hdispatch]
  decide +kernel

end Assembly

end RequestRouting
