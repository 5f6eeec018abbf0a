import RequestRouting.Proofs.Files.Confined
import RequestRouting.Proofs.Files.Writing

/-!
# Where artifacts are

An artifact is below the first root, at the names of the path that asks for it. Its own name is made
of that of its sources by convention, so that no source has it, whatever root the source is found in:
what is joined into it isn't named for being joined, and what it's made from by name has another
extension, or no marker.
-/

namespace RequestRouting.Assets

open Path (IsName destination)

variable {a : Assets} {t : FileTree} {path source folder base extension : String} {minify : Bool}
  {names : List String} {plan : Plan}

theorem filterMap_pieces (h : names? path = some names) :
    (Text.pieces '/' path).filterMap (Path.Component.ofPart? false) =
      names.map Path.Component.normal := by
  have hc := components_of_names? h
  obtain ⟨first, more, hp⟩ := List.exists_cons_of_ne_nil (Text.pieces_ne_nil '/' path)
  rw [Path.components_eq hp, (isInner_of_names? h).relative, if_neg Bool.false_ne_true] at hc
  have hdot : first ≠ "." := by
    rintro rfl
    cases names <;> simp [Path.Component.ofPart?] at hc
  have hfirst : Path.Component.ofPart? true first = Path.Component.ofPart? false first := by
    simp [Path.Component.ofPart?, hdot]
  rw [← hc, hp, List.filterMap_cons, hfirst]
  cases Path.Component.ofPart? false first <;> rfl

/-- Names that are joined to a root lead to these names below it. -/
theorem destination_join_names (h : names? path = some names) (root : String) :
    destination (Path.join root path) = destination root ++ names := by
  have hinner := isInner_of_names? h
  by_cases hr : root = ""
  · have hj : Path.join "" path = path := by simp [Path.join, hinner.relative]
    rw [hr, hj, destination, components_of_names? h, Path.foldl_enter_normal]
    rfl
  · rw [destination, Path.components_join hr hinner.relative, filterMap_pieces h, List.foldl_append,
      Path.foldl_enter_normal, ← destination]

/-- The name of an artifact. -/
def file (a : Assets) (base : String) (minify : Bool) : String :=
  base ++ (if minify then ".min" else "") ++ "." ++ a.pipeline.artifact

/-- A plan is made for an artifact below the first root, with the sources that its name stands
for. -/
theorem exists_of_plan? (h : a.plan? t path = some plan) : ∃ root base folder,
    a.roots.head? = some root ∧ destination plan.artifact = destination root ++ plan.name ∧
      (∀ name ∈ plan.name, IsName name) ∧
      plan.name.getLast? = some (a.file base plan.minify) ∧
      plan.sources = a.sources t folder base a.pipeline.artifact plan.minify := by
  simp only [plan?, Option.bind_eq_bind, Option.bind_eq_some_iff] at h
  obtain ⟨names, hnames, file, hlast, ⟨stem, extension⟩, hcut, _, -, root, hroot, _, hsome, hplan⟩ := h
  obtain rfl := Option.some.inj hplan
  have hn : ∀ name ∈ names, IsName name := by
    intro name hm
    have hc : .normal name ∈ Path.components (Text.trimLead (· = '/') path) := by
      simpa [components_of_names? hnames] using hm
    exact Path.isName_of_mem hc
  have hfile : file = stem ++ "." ++ extension := by
    apply String.ext
    simp [Text.toList_of_cutLast? hcut]
  have hextension : extension = a.pipeline.artifact := by
    by_contra hne
    simp [sources, hne] at hsome
  subst hextension
  cases htail : Text.dropTail? ".min" stem with
  | none =>
    refine ⟨root, stem, _, hroot, destination_join_names hnames root, hn, ?_, rfl⟩
    simp [hlast, hfile, Assets.file]
  | some base =>
    rw [Text.dropTail?_eq_some] at htail
    refine ⟨root, base, _, hroot, destination_join_names hnames root, hn, ?_, rfl⟩
    simp [hlast, hfile, htail, Assets.file]

/-- A name of its own extension, or without marker, is that of no artifact. -/
theorem source_ne_file (h : (a.pipeline.isCompiled || minify) = true) :
    base ++ "." ++ a.pipeline.source ≠ a.file base minify := by
  intro he
  have hlist := congrArg String.toList he
  simp only [file, String.toList_append, List.append_assoc, List.append_cancel_left_eq] at hlist
  revert h hlist
  cases a.pipeline <;> cases minify <;> decide

/-- What is joined doesn't start like what it's joined into. -/
theorem ne_file_of_isSource {name : String} (h : isSource extension name = true) :
    name ≠ a.file "all" minify := by
  rintro rfl
  have hall : Text.startsWith "all." (a.file "all" minify) = true := by
    rw [Text.startsWith_iff]
    cases minify with
    | false => exact ⟨a.pipeline.artifact, by simp [file]⟩
    | true => exact ⟨"min." ++ a.pipeline.artifact, by simp [file, ← String.append_assoc]⟩
  simp [isSource, hall] at h

/-- A source has another name than the artifact. -/
theorem exists_of_mem_sources (ht : t.IsSound) (hb : '/' ∉ base.toList)
    (h : source ∈ a.sources t folder base extension minify) : ∃ place name,
      source = Path.join place name ∧ IsName name ∧ name ≠ a.file base minify := by
  unfold sources at h
  split at h
  · cases h
  · split at h
    · rename_i hall
      simp only [Bool.and_eq_true, decide_eq_true_eq] at hall
      obtain ⟨⟨name, path⟩, hx, rfl⟩ := List.mem_map.mp h
      rcases mem_of_mem_foldl hx with hx | hx
      · cases hx
      · obtain ⟨root, -, hx⟩ := List.mem_flatMap.mp hx
        obtain ⟨⟨file, entry⟩, hlisted, hx⟩ := List.mem_filterMap.mp hx
        cases entry with
        | folder => cases hx
        | file content modified =>
          simp only [Option.ite_none_right_eq_some, Option.some.injEq, Prod.mk.injEq] at hx
          obtain ⟨hsource, rfl, rfl⟩ := hx
          exact ⟨_, _, rfl, ht.isName_of_list hlisted, hall.2 ▸ ne_file_of_isSource hsource⟩
    · split at h
      · rename_i hfind
        obtain ⟨root, -, rfl⟩ :=
          List.mem_map.mp (List.mem_of_find?_eq_some (Option.mem_toList.mp h))
        exact ⟨_, _, rfl, isName_source hb _, source_ne_file hfind⟩
      · cases h

/-- No source is where the artifact is. -/
theorem destination_ne_of_mem_sources (ht : t.IsSound) (h : a.plan? t path = some plan)
    (hs : source ∈ plan.sources) : destination source ≠ destination plan.artifact := by
  obtain ⟨root, base, folder, -, hplace, hn, hlast, hsources⟩ := exists_of_plan? h
  have hb : '/' ∉ base.toList := by
    have hfile := (hn _ (List.mem_of_getLast? hlast)).slash
    simp only [Assets.file, String.toList_append, List.mem_append, not_or] at hfile
    exact hfile.1.1.1
  rw [hsources] at hs
  obtain ⟨place, name, rfl, hname, hne⟩ := exists_of_mem_sources ht hb hs
  rw [Path.destination_join hname, hplace]
  intro he
  have hl := congrArg List.getLast? he
  simp [List.getLast?_append, hlast] at hl
  exact hne hl

end RequestRouting.Assets
