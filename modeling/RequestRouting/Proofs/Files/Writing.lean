import Mathlib.Data.List.Basic
import RequestRouting.Proofs.Files.Sound

/-!
# What writing a file changes

A path leads to one location only, whatever the files are, if it leads anywhere: its names are put
behind each other, and each step up leaves one out. Writing a file, and creating the folders on the
way to it, puts the file there and changes no other file. Folders stay where they are.
-/

namespace RequestRouting

namespace Path

variable {path folder name : String}

/-- Where a component leads to from a location. -/
def Component.enter (location : Location) : Component → Location
  | root => []
  | current => location
  | parent => location.dropLast
  | normal name => location ++ [name]

/-- Where a path leads to if nothing is missing on the way. -/
def destination (path : String) : Location := (components path).foldl Component.enter []

theorem foldl_enter_normal (location : Location) (names : List String) :
    (names.map Component.normal).foldl Component.enter location = location ++ names := by
  induction names generalizing location with
  | nil => simp
  | cons name names ih => simp [Component.enter, ih]

/-- A leading dot stays where it is. -/
theorem destination_eq (h : isAbsolute path = false) : destination path =
    ((Text.pieces '/' path).filterMap (Component.ofPart? false)).foldl Component.enter [] := by
  obtain ⟨first, more, hp⟩ := List.exists_cons_of_ne_nil (Text.pieces_ne_nil '/' path)
  rw [destination, components_eq hp, hp]
  by_cases hdot : first = "."
  · simp [h, hdot, Component.ofPart?, Component.enter]
  · have hfirst : Component.ofPart? true first = Component.ofPart? false first := by
      simp [Component.ofPart?, hdot]
    cases hc : Component.ofPart? false first <;> simp [h, hfirst, hc]

theorem IsName.ofPart? (h : IsName name) (isFirst : Bool) :
    Component.ofPart? isFirst name = some (.normal name) := by
  simp [Component.ofPart?, h.ne_empty, h.ne_current, h.ne_parent]

/-- A name in a folder leads to that name at its location. -/
theorem destination_join (h : IsName name) (folder : String) :
    destination (join folder name) = destination folder ++ [name] := by
  have hp := Text.pieces_eq_singleton h.slash
  by_cases hf : folder = ""
  · have hj : join "" name = name := by simp [join, h.isInner.relative]
    rw [hf, hj, destination_eq h.isInner.relative, hp]
    simp [h.ofPart?, Component.enter, show destination "" = [] from rfl]
  · rw [destination, components_join hf h.isInner.relative, hp, List.foldl_append, ← destination]
    simp [h.ofPart?, Component.enter]

end Path

namespace FileTree

open Path (destination Component)

variable {t t' u : FileTree} {location location' : Location} {path : String}

theorem follow_eq {parts : List String} (h : t.follow location parts = some location') :
    (parts.filterMap (Component.ofPart? false)).foldl Component.enter location = location' := by
  induction parts generalizing location with
  | nil => simpa [follow] using h
  | cons part parts ih =>
    rw [follow] at h
    split at h
    · cases h
    · split at h
      · rename_i hpart
        have hc : Component.ofPart? false part = none := by
          rcases Bool.or_eq_true_iff.mp hpart with he | he <;> simp_all [Component.ofPart?]
        simpa [hc] using ih h
      · rename_i hpart
        simp only [Bool.or_eq_true, decide_eq_true_eq, not_or] at hpart
        split at h
        · rename_i hup
          simpa [hup, Component.ofPart?, Component.enter] using ih h
        · rename_i hup
          simpa [Component.ofPart?, hpart, hup, Component.enter] using ih h

/-- If a path leads anywhere, it's there. -/
theorem destination_of_locate (h : t.locate path = some location) :
    destination path = location := by
  unfold locate at h
  split at h
  · cases h
  · rename_i hpath
    simp only [Bool.or_eq_true, not_or, Bool.not_eq_true] at hpath
    rw [Path.destination_eq hpath.1.2]
    exact follow_eq h

/-- The content and the time of the file at a location. -/
def fileAt? (t : FileTree) (location : Location) : Option (ByteArray × Time) :=
  match t.at? location with
  | some (.file content modified) => some (content, modified)
  | _ => none

/-- Whether a tree is another one with some folders added. -/
def Extends (t t' : FileTree) : Prop :=
  ∀ l, t'.at? l = t.at? l ∨ t.at? l = none ∧ t'.at? l = some .folder

theorem Extends.refl (t : FileTree) : Extends t t := fun _ => Or.inl rfl

theorem Extends.trans (h : Extends t t') (h' : Extends t' u) : Extends t u := by
  intro l
  rcases h l with he | ⟨hn, hf⟩ <;> rcases h' l with he' | ⟨hn', hf'⟩
  · exact Or.inl (he'.trans he)
  · exact Or.inr ⟨he ▸ hn', hf'⟩
  · exact Or.inr ⟨hn, he'.trans hf⟩
  · exact Or.inr ⟨hn, hf'⟩

theorem Extends.fileAt?_eq (h : Extends t t') (l : Location) : t'.fileAt? l = t.fileAt? l := by
  rcases h l with he | ⟨hn, hf⟩
  · rw [fileAt?, fileAt?, he]
  · rw [fileAt?, fileAt?, hn, hf]

theorem Extends.hasFolder (h : Extends t t') {l : Location} (hl : t.hasFolder l = true) :
    t'.hasFolder l = true := by
  rw [hasFolder_iff] at hl ⊢
  rcases h l with he | ⟨hn, -⟩
  · rw [he, hl]
  · simp [hl] at hn

theorem extends_of_ensureFolder (h : t.ensureFolder location = some t') : Extends t t' := by
  unfold ensureFolder at h
  split at h
  · obtain rfl := Option.some.inj h
    exact .refl t
  · cases h
  · rename_i hn
    obtain rfl := Option.some.inj h
    intro l
    by_cases hl : l = location
    · have hne : location ≠ [] := by
        rintro rfl
        simp [at?] at hn
      exact Or.inr ⟨hl ▸ hn, by rw [hl, at?_put_self hne]⟩
    · exact Or.inl (at?_put_of_ne hl)

theorem extends_of_makeFolders {components : List Component}
    (h : t.makeFolders location components = some (t', location')) : Extends t t' := by
  induction components generalizing t location with
  | nil =>
    obtain ⟨rfl, -⟩ := Prod.mk.inj (Option.some.inj h)
    exact .refl t
  | cons c rest ih =>
    cases c with
    | root => cases h
    | current => exact ih h
    | parent => exact ih h
    | normal name =>
      simp only [makeFolders, Option.bind_eq_bind, Option.bind_eq_some_iff] at h
      obtain ⟨_, -, u, hu, h⟩ := h
      exact (extends_of_ensureFolder hu).trans (ih h)

/-- A file is written where its path leads, in the place of no folder. -/
theorem eq_put_of_write {content : ByteArray} {modified : Time}
    (h : t.write path content modified = some t') :
    t.hasFolder (destination path) = false ∧
      t' = t.put (destination path) (.file content modified) := by
  simp only [write, Option.bind_eq_bind, Option.bind_eq_some_iff] at h
  obtain ⟨name, hlast, _, husable, _, hname, folder, hfollow, _, hplace, ht⟩ := h
  simp only [Option.guard_eq_some', Bool.and_eq_true, Bool.not_eq_true',
    decide_eq_true_eq] at husable hname hplace
  obtain ⟨⟨hempty, hcurrent⟩, hparent⟩ := hname
  have hparts : Text.pieces '/' path = (Text.pieces '/' path).dropLast ++ [name] := by
    rw [List.dropLast_append_getLast? name hlast]
  have hc : Component.ofPart? false name = some (.normal name) := by
    simp [Component.ofPart?, hempty, hcurrent, hparent]
  have hdestination : destination path = folder ++ [name] := by
    rw [Path.destination_eq husable.1.1, hparts, List.filterMap_append, List.foldl_append,
      follow_eq hfollow]
    simp [hc, Component.enter]
  rw [hdestination]
  exact ⟨hplace.2, (Option.some.inj ht).symm⟩

/-- Writing a file changes no other file, and puts it in the place of no folder. -/
theorem fileAt?_create (t : FileTree) (path : String) (content : ByteArray) (modified : Time)
    {l : Location} (h : (t.create path content modified).fileAt? l ≠ t.fileAt? l) :
    l = destination path ∧ t.hasFolder l = false ∧
      (t.create path content modified).fileAt? l = some (content, modified) := by
  unfold create at h ⊢
  cases hm : t.makeFolder (Path.parent path) with
  | none => simp [hm] at h
  | some u =>
    obtain ⟨⟨u', location⟩, hfolders, rfl⟩ := Option.map_eq_some_iff.mp hm
    have hu := extends_of_makeFolders hfolders
    simp only [hm] at h ⊢
    cases hw : u'.write path content modified with
    | none => simp [hw, hu.fileAt?_eq] at h
    | some t' =>
      obtain ⟨hplace, rfl⟩ := eq_put_of_write hw
      simp only [hw, Option.getD_some] at h ⊢
      by_cases hl : l = destination path
      · refine ⟨hl, ?_, ?_⟩
        · rw [Bool.eq_false_iff]
          intro hf
          simp [hl ▸ hu.hasFolder hf] at hplace
        · have hne : destination path ≠ [] := by
            intro he
            simp [he] at hplace
          simp [fileAt?, hl, at?_put_self hne]
      · refine absurd ?_ h
        rw [← hu.fileAt?_eq, fileAt?, fileAt?, at?_put_of_ne hl]

end FileTree

end RequestRouting
