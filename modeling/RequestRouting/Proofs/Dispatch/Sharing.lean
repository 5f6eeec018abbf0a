import RequestRouting.Proofs.Dispatch.References

/-!
# Targets that are handed out

A reference hands out a copy of a target, long before the URI is known that requests are captured
to. All copies have the cell in common that the URI is written to, at most once. Here the cells are
spelled out. A dispatch table is what is seen of the cells at some time, for referring to a target
as well as for writing the URIs, so that looking up a target by its name is reading the cell of a
copy.
-/

namespace RequestRouting

/-- A target as it's handed out. -/
structure SharedTarget where
  name : String
  dispatcher : String
  resources : String
  /-- The cell with the URI requests are captured to. -/
  cell : Nat
  deriving DecidableEq

/-- A target with the extra values of its dispatcher, and whether it's referenced. -/
structure SharedTable.Entry where
  target : SharedTarget
  extra : Keyed String Json := {}
  referenced : Bool := false

/-- A dispatch table with cells for the URIs. -/
structure SharedTable where
  default : Option String := none
  entries : List SharedTable.Entry := []
  cells : List (Option String) := []

namespace SharedTarget

/-- The target of a dispatcher, with a cell for the URI. -/
def ofDispatcher (name : String) (d : Dispatcher) (cell : Nat) : SharedTarget where
  name
  dispatcher := (DispatchTarget.ofDispatcher name d).dispatcher
  resources := (DispatchTarget.ofDispatcher name d).resources
  cell

/-- What is seen of a target, given what is in the cells. -/
def view (cells : List (Option String)) (a : SharedTarget) : DispatchTarget where
  name := a.name
  dispatcher := a.dispatcher
  resources := a.resources
  uri := cells[a.cell]?.join

end SharedTarget

namespace SharedTable

/-- The names of the targets, in order. -/
def names (t : SharedTable) : List String := t.entries.map (·.target.name)

/-- The targets, in order. -/
def targets (t : SharedTable) : List SharedTarget := t.entries.map (·.target)

/-- The targets that are referenced, in order. -/
def referenced (t : SharedTable) : List SharedTarget :=
  (t.entries.filter (·.referenced)).map (·.target)

/-- Adds the target of a dispatcher, with a new cell. -/
def push (t : SharedTable) (name : String) (d : Dispatcher) : SharedTable :=
  { t with
    entries := t.entries ++ [{ target := .ofDispatcher name d t.cells.length, extra := d.extra }]
    cells := t.cells ++ [none] }

/-- The table of configured dispatchers. -/
def ofDispatchers (d : Dispatchers) : SharedTable :=
  d.entries.entries.foldl (fun t e => t.push e.1 e.2) { default := d.default }

/-- Marks the first entry with the given name as referenced. -/
def mark (name : String) : List Entry → List Entry
  | [] => []
  | e :: rest =>
    if e.target.name = name then { e with referenced := true } :: rest else e :: mark name rest

/-- Hands out a dispatcher, or the default one, which is added first if there is none. -/
def reference (t : SharedTable) (name? : Option String) : SharedTarget × SharedTable :=
  let name := name?.getD (t.default.getD DispatchTable.javascript)
  match t.entries.find? (·.target.name = name) with
  | some e => (e.target, { t with entries := mark name t.entries })
  | none =>
    let t' := t.push name {}
    (.ofDispatcher name {} t.cells.length, { t' with entries := mark name t'.entries })

/-- Hands out dispatchers one after another. -/
def referenceAll (t : SharedTable) : List (Option String) → List SharedTarget × SharedTable
  | [] => ([], t)
  | name? :: rest =>
    let (target, t) := t.reference name?
    let (targets, t) := t.referenceAll rest
    (target :: targets, t)

/-- Writes a cell, unless that was done before. -/
def write (cells : List (Option String)) (cell : Nat) (uri : String) : List (Option String) :=
  cells.modify cell fun written => some (written.getD uri)

/-- Writes the URIs of all targets that are referenced, below the internal URI of the manual
resource. -/
def bind (t : SharedTable) (internal : String) : SharedTable :=
  { t with
    cells := t.referenced.foldl
      (fun cells a => write cells a.cell (clean (internal ++ a.dispatcher))) t.cells }

/-- What is seen of an entry, given what is in the cells. -/
def Entry.view (cells : List (Option String)) (e : Entry) : DispatchTable.Entry where
  target := e.target.view cells
  extra := e.extra
  referenced := e.referenced

/-- The dispatch table that is seen. -/
def view (t : SharedTable) : DispatchTable where
  default := t.default
  entries := t.entries.map (Entry.view t.cells)

/-- Whether each name has a target, and each target has a cell, that is no other one's. -/
structure IsSound (t : SharedTable) : Prop where
  names : t.names.Nodup
  cells : t.targets.map (·.cell) = List.range t.cells.length

variable {t : SharedTable} {name : String} {a b : SharedTarget}

theorem names_eq (t : SharedTable) : t.names = t.targets.map (·.name) := by
  rw [names, targets, List.map_map]
  rfl

theorem names_view (t : SharedTable) : t.view.names = t.names := by
  rw [DispatchTable.names, view, List.map_map]
  rfl

theorem targets_view (t : SharedTable) : t.view.targets = t.targets.map (·.view t.cells) := by
  rw [DispatchTable.targets, view, targets, List.map_map, List.map_map]
  rfl

namespace IsSound

theorem cell_lt (h : t.IsSound) (ha : a ∈ t.targets) : a.cell < t.cells.length := by
  rw [← List.mem_range, ← h.cells]
  exact List.mem_map_of_mem ha

theorem eq_of_name (h : t.IsSound) (ha : a ∈ t.targets) (hb : b ∈ t.targets)
    (hn : a.name = b.name) : a = b :=
  List.inj_on_of_nodup_map (names_eq t ▸ h.names) ha hb hn

theorem eq_of_cell (h : t.IsSound) (ha : a ∈ t.targets) (hb : b ∈ t.targets)
    (hc : a.cell = b.cell) : a = b :=
  List.inj_on_of_nodup_map (h.cells ▸ List.nodup_range) ha hb hc

/-- A target that is added has a name and a cell of its own. -/
theorem push (h : t.IsSound) (hn : name ∉ t.names) (d : Dispatcher) : (t.push name d).IsSound := by
  constructor
  · rw [SharedTable.names, SharedTable.push, List.map_append]
    exact List.nodup_append_comm.mp (List.nodup_cons.mpr ⟨hn, h.names⟩)
  · rw [targets, SharedTable.push, List.map_append, List.map_append, List.length_append]
    exact (congrArg (· ++ [t.cells.length]) h.cells).trans List.range_succ.symm

/-- What is seen of a table that a target is added to. -/
theorem view_push (h : t.IsSound) (name : String) (d : Dispatcher) :
    (t.push name d).view = ⟨t.view.default,
      t.view.entries ++ [{ target := .ofDispatcher name d, extra := d.extra }]⟩ := by
  have hold : t.entries.map (Entry.view (t.cells ++ [none])) =
      t.entries.map (Entry.view t.cells) := by
    refine List.map_congr_left fun e he => ?_
    have hlt := h.cell_lt (List.mem_map_of_mem he : e.target ∈ t.targets)
    rw [Entry.view, SharedTarget.view, List.getElem?_append_left hlt]
    rfl
  have hnew : (SharedTarget.ofDispatcher name d t.cells.length).view (t.cells ++ [none]) =
      .ofDispatcher name d := by
    rw [SharedTarget.view, SharedTarget.ofDispatcher, List.getElem?_concat_length]
    rfl
  rw [view, SharedTable.push, List.map_append, hold, List.map_singleton, Entry.view, hnew]
  rfl

end IsSound

theorem names_push (t : SharedTable) (name : String) (d : Dispatcher) :
    (t.push name d).names = t.names ++ [name] :=
  List.map_append

theorem targets_push (t : SharedTable) (name : String) (d : Dispatcher) :
    (t.push name d).targets = t.targets ++ [.ofDispatcher name d t.cells.length] :=
  List.map_append

theorem view_foldl_push (h : t.IsSound) (l : List (String × Dispatcher))
    (hn : (t.names ++ l.map (·.1)).Nodup) :
    (l.foldl (fun t e => t.push e.1 e.2) t).IsSound ∧
      (l.foldl (fun t e => t.push e.1 e.2) t).view = ⟨t.view.default, t.view.entries ++
        l.map fun e => { target := .ofDispatcher e.1 e.2, extra := e.2.extra }⟩ := by
  induction l generalizing t with
  | nil => exact ⟨h, by rw [List.map_nil, List.append_nil]; rfl⟩
  | cons e rest ih =>
    rw [List.map_cons, List.append_cons, ← names_push t e.1 e.2] at hn
    have hnew : e.1 ∉ t.names := by
      rw [names_push] at hn
      intro hm
      exact (List.nodup_append.mp hn.of_append_left).2.2 _ hm _ (List.mem_singleton_self _) rfl
    obtain ⟨hsound, hview⟩ := ih (h.push hnew e.2) hn
    refine ⟨hsound, hview.trans ?_⟩
    rw [h.view_push, List.map_cons, List.append_assoc]
    rfl

/-- What is seen at first are the dispatchers that are configured. -/
theorem view_ofDispatchers {d : Dispatchers} (h : d.entries.keys.Nodup) :
    (ofDispatchers d).IsSound ∧ (ofDispatchers d).view = .ofDispatchers d := by
  have hempty : IsSound { default := d.default } := ⟨List.nodup_nil, rfl⟩
  exact view_foldl_push hempty d.entries.entries h

theorem map_mark {α : Type} (f : Entry → α)
    (hf : ∀ e, f { e with referenced := true } = f e) (name : String) (l : List Entry) :
    (mark name l).map f = l.map f := by
  induction l with
  | nil => rfl
  | cons e rest ih =>
    rw [mark]
    split
    · rw [List.map_cons, hf, List.map_cons]
    · rw [List.map_cons, ih, List.map_cons]

/-- The table with a mark. -/
def marked (t : SharedTable) (name : String) : SharedTable :=
  { t with entries := mark name t.entries }

theorem targets_marked (t : SharedTable) (name : String) : (t.marked name).targets = t.targets :=
  map_mark (·.target) (fun _ => rfl) name t.entries

theorem IsSound.marked (h : t.IsSound) (name : String) : (t.marked name).IsSound := by
  constructor
  · rw [names_eq, targets_marked, ← names_eq]
    exact h.names
  · rw [targets_marked]
    exact h.cells

/-- What is seen of a mark is a mark. -/
theorem view_marked (h : name ∈ t.names) :
    (t.marked name).view = ⟨t.view.default, DispatchTable.mark name t.view.entries⟩ := by
  have hentries {l : List Entry} (hl : name ∈ l.map (·.target.name)) :
      (mark name l).map (Entry.view t.cells) =
        DispatchTable.mark name (l.map (Entry.view t.cells)) := by
    induction l with
    | nil => cases hl
    | cons e rest ih =>
      have hname : (e.view t.cells).target.name = e.target.name := rfl
      rw [mark, List.map_cons, DispatchTable.mark, hname]
      split
      · rfl
      · rename_i he
        rw [List.map_cons, ih ((List.mem_cons.mp hl).resolve_left (Ne.symm he))]
  rw [view, marked, hentries h]
  rfl

/-- What a reference hands out, and what it leads to. -/
structure Hands (t : SharedTable) (name? : Option String) (a : SharedTarget) (t' : SharedTable) :
    Prop where
  sound : t'.IsSound
  view : t'.view = t.view.reference name?
  name : a.name = name?.getD t.view.defaultName
  mem : a ∈ t'.targets
  kept : ∀ b ∈ t.targets, b ∈ t'.targets

theorem hands_reference (h : t.IsSound) (name? : Option String) :
    t.Hands name? (t.reference name?).1 (t.reference name?).2 := by
  have hdefault : t.default.getD DispatchTable.javascript = t.view.defaultName := rfl
  unfold reference
  rw [hdefault]
  dsimp only
  generalize hn : name?.getD t.view.defaultName = name
  have hreference : t.view.reference name? =
      ⟨t.view.default, DispatchTable.mark name t.view.entries⟩ := by
    rw [DispatchTable.reference, hn]
  split
  · rename_i e hfound
    have he : e ∈ t.entries := List.mem_of_find?_eq_some hfound
    have hname : e.target.name = name := by simpa using List.find?_some hfound
    have hmem : e.target ∈ t.targets := List.mem_map_of_mem he
    have htargets : (t.marked name).targets = t.targets := targets_marked t name
    exact {
      sound := h.marked name
      view := (view_marked (hname ▸ List.mem_map_of_mem he)).trans hreference.symm
      name := hname.trans hn.symm
      mem := htargets ▸ hmem
      kept := fun b hb => htargets ▸ hb }
  · rename_i hnone
    have hnew : name ∉ t.names := by
      intro hm
      obtain ⟨e, he, hname⟩ := List.mem_map.mp hm
      exact List.find?_eq_none.mp hnone e he (decide_eq_true hname)
    have hnames : name ∈ (t.push name {}).names := by
      rw [names_push]
      exact List.mem_append_right _ (List.mem_singleton_self _)
    have hview : ((t.push name {}).marked name).view = t.view.reference name? := by
      have hnew' : name ∉ t.view.names := by rwa [names_view]
      have hadded : DispatchTable.mark name [{ target := .ofDispatcher name {} }] =
          [.added name] := if_pos rfl
      rw [view_marked hnames, h.view_push, hreference, DispatchTable.mark_of_not_mem hnew',
        DispatchTable.mark_append_of_not_mem hnew']
      exact congrArg (fun last => DispatchTable.mk t.view.default (t.view.entries ++ last)) hadded
    have htargets : ((t.push name {}).marked name).targets =
        t.targets ++ [.ofDispatcher name {} t.cells.length] := by
      rw [targets_marked, targets_push]
    exact {
      sound := (h.push hnew {}).marked name
      view := hview
      name := hn.symm
      mem := htargets ▸ List.mem_append_right _ (List.mem_singleton_self _)
      kept := fun b hb => htargets ▸ List.mem_append_left _ hb }

/-- What references hand out one after another, and what they lead to. -/
structure HandsAll (t : SharedTable) (refs : List (Option String)) (handed : List SharedTarget)
    (t' : SharedTable) : Prop where
  sound : t'.IsSound
  view : t'.view = t.view.referenceAll refs
  names : handed.map (·.name) = t.view.named refs
  mem : ∀ a ∈ handed, a ∈ t'.targets
  kept : ∀ b ∈ t.targets, b ∈ t'.targets

theorem handsAll_referenceAll (h : t.IsSound) (refs : List (Option String)) :
    t.HandsAll refs (t.referenceAll refs).1 (t.referenceAll refs).2 := by
  induction refs generalizing t with
  | nil => exact ⟨h, rfl, rfl, fun _ ha => absurd ha List.not_mem_nil, fun _ hb => hb⟩
  | cons name? rest ih =>
    have hfirst := hands_reference h name?
    have hrest := ih hfirst.sound
    have hnames := hrest.names
    rw [hfirst.view] at hnames
    exact {
      sound := hrest.sound
      view := hrest.view.trans (by rw [hfirst.view]; rfl)
      names := congrArg₂ List.cons hfirst.name hnames
      mem := List.forall_mem_cons.mpr ⟨hrest.kept _ hfirst.mem, hrest.mem⟩
      kept := fun b hb => hrest.kept b (hfirst.kept b hb) }

/-! Writing the URIs. -/

section Writing

variable {cells : List (Option String)} {l : List SharedTarget} {uri : SharedTarget → String}

theorem getElem?_write (cells : List (Option String)) (cell other : Nat) (uri : String) :
    (write cells cell uri)[other]? = if cell = other then
      cells[other]?.map fun written => some (written.getD uri) else cells[other]? := by
  rw [write, List.getElem?_modify]
  split <;> simp

theorem foldl_write_of_not_mem {cell : Nat} (h : cell ∉ l.map (·.cell)) :
    (l.foldl (fun cells a => write cells a.cell (uri a)) cells)[cell]? = cells[cell]? := by
  induction l generalizing cells with
  | nil => rfl
  | cons a rest ih =>
    obtain ⟨hfirst, hrest⟩ := not_or.mp (mt List.mem_cons.mpr h)
    rw [List.foldl_cons, ih hrest, getElem?_write, if_neg (Ne.symm hfirst)]

/-- A cell that isn't anyone else's is written once. -/
theorem foldl_write_of_mem (h : (l.map (·.cell)).Nodup) (ha : a ∈ l) :
    (l.foldl (fun cells a => write cells a.cell (uri a)) cells)[a.cell]? =
      cells[a.cell]?.map fun written => some (written.getD (uri a)) := by
  induction l generalizing cells with
  | nil => cases ha
  | cons b rest ih =>
    obtain ⟨hfirst, hrest⟩ := List.nodup_cons.mp h
    rw [List.foldl_cons]
    rcases List.mem_cons.mp ha with rfl | ha
    · rw [foldl_write_of_not_mem hfirst, getElem?_write, if_pos rfl]
    · have hne : b.cell ≠ a.cell := fun heq => hfirst (List.mem_map.mpr ⟨a, ha, heq.symm⟩)
      rw [ih hrest ha, getElem?_write, if_neg hne]

end Writing

/-- The cells of targets that aren't referenced are no cells of others that are. -/
theorem IsSound.cell_not_mem (h : t.IsSound) {e : Entry} (he : e ∈ t.entries)
    (hr : e.referenced = false) : e.target.cell ∉ t.referenced.map (·.cell) := by
  intro hm
  obtain ⟨_, hb, hcell⟩ := List.mem_map.mp hm
  obtain ⟨e', hm', rfl⟩ := List.mem_map.mp hb
  obtain ⟨he', hr'⟩ := List.mem_filter.mp hm'
  have htarget : e'.target = e.target :=
    h.eq_of_cell (List.mem_map_of_mem he') (List.mem_map_of_mem he) hcell
  have heq : e' = e := List.inj_on_of_nodup_map h.names he' he (congrArg SharedTarget.name htarget)
  rw [heq, hr] at hr'
  cases hr'

/-- What is in the cell of a target once the URIs are written. -/
theorem IsSound.join_cells_bind (h : t.IsSound) {e : Entry} (he : e ∈ t.entries)
    (internal : String) : (t.bind internal).cells[e.target.cell]?.join =
      if e.referenced then
        some (t.cells[e.target.cell]?.join.getD (clean (internal ++ e.target.dispatcher)))
      else t.cells[e.target.cell]?.join := by
  cases hr : e.referenced with
  | false => exact congrArg Option.join (foldl_write_of_not_mem (h.cell_not_mem he hr))
  | true =>
    have hnodup : (t.referenced.map (·.cell)).Nodup := by
      have hsub : t.referenced.Sublist t.targets := List.filter_sublist.map _
      refine List.Nodup.sublist (hsub.map _) ?_
      rw [h.cells]
      exact List.nodup_range
    have hmem : e.target ∈ t.referenced := List.mem_map_of_mem (List.mem_filter.mpr ⟨he, hr⟩)
    have hlt := h.cell_lt (List.mem_map_of_mem he : e.target ∈ t.targets)
    rw [bind, foldl_write_of_mem hnodup hmem, List.getElem?_eq_getElem hlt]
    rfl

theorem length_foldl_write (l : List SharedTarget) (uri : SharedTarget → String)
    (cells : List (Option String)) :
    (l.foldl (fun cells a => write cells a.cell (uri a)) cells).length = cells.length := by
  induction l generalizing cells with
  | nil => rfl
  | cons a rest ih => rw [List.foldl_cons, ih, write, List.length_modify]

theorem IsSound.bind (h : t.IsSound) (internal : String) : (t.bind internal).IsSound := by
  refine ⟨h.names, h.cells.trans ?_⟩
  rw [SharedTable.bind, length_foldl_write]

/-- What is seen of the URIs that are written is what a dispatch table is given. -/
theorem IsSound.view_bind (h : t.IsSound) (internal : String) :
    (t.bind internal).view = t.view.bind internal := by
  refine congrArg (DispatchTable.mk t.default) ?_
  rw [view, List.map_map]
  refine List.map_congr_left fun e he => ?_
  have hcell := h.join_cells_bind he internal
  obtain ⟨a, extra, referenced⟩ := e
  rw [Function.comp_apply, Entry.view, SharedTarget.view, hcell, Entry.view, SharedTarget.view]
  cases referenced with
  | false => rfl
  | true => cases t.cells[a.cell]?.join <;> rfl

end SharedTable

end RequestRouting
