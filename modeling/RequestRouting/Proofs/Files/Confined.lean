import RequestRouting.Assets.Plan
import RequestRouting.Documents.Source
import RequestRouting.Middleware.StaticFiles
import RequestRouting.Proofs.Files.Sound
import RequestRouting.Proofs.Keyed
import RequestRouting.Proofs.Text.Cut

/-!
# Access to files

Static files, documents and the sources of artifacts are looked up by paths that are made of a
configured root and what a request asks for. Whatever that is, the paths are below the root.
-/

namespace RequestRouting

open RequestRouting.Path (IsBelow IsInner IsName Component)

namespace StaticFiles

end StaticFiles

namespace DocumentSource

variable {s : DocumentSource} {t : FileTree} {name path : String}

/-- A document is found in a place for its name, which is made of names only. -/
theorem exists_of_lookup {document : Document} (h : s.lookup t name = some document) :
    (∀ c ∈ Path.components name, ∃ part, c = .normal part) ∧ ∃ place ∈ s.places name,
      s.findIn? t place.1 place.2 = some (document.path, document.extension) := by
  simp only [lookup] at h
  split at h
  · cases h
  · rename_i hn
    obtain ⟨⟨path, extension⟩, hfound, rfl⟩ := Option.map_eq_some_iff.mp h
    obtain ⟨place, hp, hfind⟩ := List.exists_of_findSome?_eq_some hfound
    refine ⟨fun c hc => ?_, place, hp, hfind⟩
    have hc := List.all_eq_true.mp (by simpa using hn) c hc
    cases c <;> simp_all

end DocumentSource

namespace Assets

variable {a : Assets} {t : FileTree} {path source : String} {names : List String}

/-- A path that is made of names has no other components. -/
theorem components_of_names? (h : names? path = some names) :
    Path.components path = names.map .normal := by
  unfold names? at h
  generalize Path.components path = components at h
  induction components generalizing names with
  | nil =>
    obtain rfl := Option.some.inj h
    rfl
  | cons c rest ih =>
    rw [List.mapM_cons] at h
    simp only [Option.bind_eq_bind, Option.bind_eq_some_iff, Option.pure_def,
      Option.some.injEq] at h
    obtain ⟨name, hc, more, hrest, rfl⟩ := h
    rw [ih hrest, List.map_cons]
    cases c with
    | normal part =>
      obtain rfl := Option.some.inj hc
      rfl
    | root => cases hc
    | current => cases hc
    | parent => cases hc

theorem isInner_of_names? (h : names? path = some names) : IsInner path := by
  rw [← Path.all_isInner_iff, components_of_names? h, List.all_map]
  exact List.all_eq_true.mpr fun _ _ => rfl

/-- A source is named by its extension, so its name is neither empty nor made of dots. -/
theorem isName_source (hb : '/' ∉ base.toList) (pipeline : Pipeline) :
    IsName (base ++ "." ++ pipeline.source) := by
  have hslash : '/' ∉ ".".toList ∧ '/' ∉ pipeline.source.toList := by
    cases pipeline <;> decide
  have hne (name : String) (hn : name.toList.getLast? = none ∨ name.toList.getLast? = some '.') :
      base ++ "." ++ pipeline.source ≠ name := by
    rintro rfl
    cases pipeline <;> simp [Pipeline.source, List.getLast?_append] at hn
  exact ⟨by simp [hb, hslash], hne "" (by decide), hne "." (by decide), hne ".." (by decide)⟩

/-- The chosen sources are among all sources. -/
theorem mem_of_mem_foldl {l : List (String × String)} {m : Keyed String String}
    {x : String × String}
    (h : x ∈ (l.foldl (fun m y => m.insertIfAbsent y.1 y.2) m).entries) :
    x ∈ m.entries ∨ x ∈ l := by
  induction l generalizing m with
  | nil => exact Or.inl h
  | cons y l ih =>
    rcases ih h with h | h
    · dsimp only [Keyed.insertIfAbsent] at h
      split at h
      · exact Or.inl h
      · rcases Keyed.mem_place h with rfl | h
        · exact Or.inr List.mem_cons_self
        · exact Or.inl h
    · exact Or.inr (List.mem_cons_of_mem _ h)

/-- Generating artifacts keeps a tree sound. -/
theorem isSound_refresh (ht : t.IsSound) (now : Time) (checks : Checks) (path : String) :
    (a.refresh t now checks path).1.IsSound := by
  have hgenerate (plan : Plan) : (a.generate t now plan).IsSound := by
    unfold generate
    split
    · exact ht.create _ _ _
    · exact ht
  have hchecked (plan : Plan) (isChecked : Bool) (checks' : Checks) :
      (if isChecked then (t, checks)
        else (if isStale t plan then a.generate t now plan else t, checks')).1.IsSound := by
    split
    · exact ht
    · dsimp only
      split
      · exact hgenerate plan
      · exact ht
  unfold refresh
  split
  · exact ht
  · exact hchecked _ _ _

end Assets

/-- The files of a site. -/
def siteFiles : FileTree :=
  ((FileTree.create {} "pages/about/default.m.js" "about".toUTF8 0).create "lib/app/a.js"
    "a".toUTF8 0).create "scripts/app/b.js" "b".toUTF8 0

/-- The scripts of the site. -/
def siteAssets : Assets where
  roots := ["scripts", "lib"]
  pipeline := .scripts

end RequestRouting
