import Mathlib.Data.Option.Basic
import RequestRouting.Files.Tree
import RequestRouting.Proofs.Files.Below

/-!
# Sound file trees

In a sound tree, locations are made of proper names, and whatever there is lies in a folder. All
operations keep a tree sound, so nothing in a folder leads out of it by its name, and there is never
a file where a path leads up to.
-/

namespace RequestRouting.FileTree

open RequestRouting.Path (IsName)

variable {t t' : FileTree} {location : Location} {entry : Entry} {path : String}

/-- Whether locations are made of names, and whatever there is lies in a folder. -/
structure IsSound (t : FileTree) : Prop where
  names : ∀ x ∈ t.entries, ∀ name ∈ x.1, IsName name
  folders : ∀ x ∈ t.entries, t.hasFolder x.1.dropLast = true

theorem isSound_empty : IsSound {} := ⟨by simp, by simp⟩

theorem hasFolder_iff : t.hasFolder location = true ↔ t.at? location = some .folder := by
  unfold hasFolder
  split
  · simp [*]
  · rename_i hn
    simpa using hn

@[simp] theorem hasFolder_nil (t : FileTree) : t.hasFolder [] = true := rfl

/-- Folders lie in folders. -/
theorem IsSound.hasFolder_dropLast (h : t.IsSound) (hf : t.hasFolder location = true) :
    t.hasFolder location.dropLast = true := by
  cases location with
  | nil => rfl
  | cons name rest =>
    rw [hasFolder_iff, at?, if_neg (by simp)] at hf
    obtain ⟨x, hx, -⟩ := Option.map_eq_some_iff.mp hf
    have hl : x.1 = name :: rest := by simpa using List.find?_some hx
    rw [← hl]
    exact h.folders x (List.mem_of_find?_eq_some hx)

/-- Filtering doesn't matter to finding what is kept by it. -/
theorem find?_filter_of_imp {α : Type} {p q : α → Bool} {l : List α}
    (h : ∀ x, q x = true → p x = true) : (l.filter p).find? q = l.find? q := by
  rw [List.find?_filter]
  refine congrArg (List.find? · l) (funext fun x => ?_)
  cases hq : q x with
  | false => simp
  | true => simp [h x hq]

theorem at?_put_of_ne {other : Location} (h : other ≠ location) :
    (t.put location entry).at? other = t.at? other := by
  unfold at? put
  have hlast : [(location, entry)].find? (fun x => x.1 = other) = none := by simp [Ne.symm h]
  have hrest : (t.entries.filter fun x => decide (x.1 ≠ location)).find? (fun x => x.1 = other) =
      t.entries.find? fun x => x.1 = other := by
    refine find?_filter_of_imp fun x hx => ?_
    rw [of_decide_eq_true hx]
    exact decide_eq_true h
  rw [List.find?_append, hlast, hrest, Option.or_none]

theorem at?_put_self (h : location ≠ []) : (t.put location entry).at? location = some entry := by
  unfold at? put
  have hrest : (t.entries.filter fun x => decide (x.1 ≠ location)).find?
      (fun x => x.1 = location) = none := by simp
  rw [if_neg (by simpa using h), List.find?_append, hrest]
  simp

/-- An entry may be put in a folder under a name, but a file not in the place of a folder. -/
theorem IsSound.put (h : t.IsSound) {folder : Location} {name : String}
    (hn : ∀ name ∈ folder, IsName name) (hname : IsName name) (hf : t.hasFolder folder = true)
    (he : entry = .folder ∨ t.hasFolder (folder ++ [name]) = false) :
    (t.put (folder ++ [name]) entry).IsSound := by
  have hkeep {other : Location} (hne : other ≠ folder ++ [name]) (ho : t.hasFolder other = true) :
      (t.put (folder ++ [name]) entry).hasFolder other = true := by
    rw [hasFolder_iff, at?_put_of_ne hne]
    exact hasFolder_iff.mp ho
  have hne : folder ≠ folder ++ [name] := by simp
  refine ⟨fun x hx => ?_, fun x hx => ?_⟩
  · rcases List.mem_append.mp hx with hx | hx
    · exact h.names x (List.mem_filter.mp hx).1
    · obtain rfl := List.mem_singleton.mp hx
      intro part hp
      rcases List.mem_append.mp hp with hp | hp
      · exact hn part hp
      · exact List.mem_singleton.mp hp ▸ hname
  · rcases List.mem_append.mp hx with hx | hx
    · have hfolder := h.folders x (List.mem_filter.mp hx).1
      by_cases hd : x.1.dropLast = folder ++ [name]
      · rw [hd, hasFolder_iff, at?_put_self (by simp)]
        rw [hd] at hfolder
        rcases he with rfl | he
        · rfl
        · rw [he] at hfolder
          cases hfolder
      · exact hkeep hd hfolder
    · obtain rfl := List.mem_singleton.mp hx
      rw [List.dropLast_concat]
      exact hkeep hne hf

/-- What is made of parts of a path is made of names. -/
theorem isName_of_follow {parts : List String} {location' : Location}
    (hp : ∀ part ∈ parts, '/' ∉ part.toList) (hn : ∀ name ∈ location, IsName name)
    (h : t.follow location parts = some location') : ∀ name ∈ location', IsName name := by
  induction parts generalizing location with
  | nil =>
    obtain rfl := Option.some.inj h
    exact hn
  | cons part rest ih =>
    have hrest : ∀ part ∈ rest, '/' ∉ part.toList := fun p hm => hp p (List.mem_cons_of_mem _ hm)
    rw [follow] at h
    split at h
    · cases h
    · split at h
      · exact ih hrest hn h
      · rename_i hpart
        split at h
        · exact ih hrest (fun name hm => hn name (List.dropLast_subset _ hm)) h
        · refine ih hrest (fun name hm => ?_) h
          rcases List.mem_append.mp hm with hm | hm
          · exact hn name hm
          · obtain rfl := List.mem_singleton.mp hm
            simp only [Bool.or_eq_true, decide_eq_true_eq, not_or] at hpart
            exact ⟨hp name List.mem_cons_self, by simpa using hpart.1, hpart.2, ‹_›⟩

/-- Writing a file keeps a tree sound. -/
theorem IsSound.write (h : t.IsSound) {content : ByteArray} {modified : Time}
    (hw : t.write path content modified = some t') : t'.IsSound := by
  simp only [FileTree.write, Option.bind_eq_bind, Option.bind_eq_some_iff] at hw
  obtain ⟨name, hlast, _, -, _, hname, folder, hfollow, _, hplace, ht⟩ := hw
  obtain rfl := Option.some.inj ht
  have hparts : ∀ part ∈ Text.pieces '/' path, '/' ∉ part.toList :=
    fun part hm => Text.not_mem_of_mem_pieces hm
  have hn := isName_of_follow (fun part hm => hparts part (List.dropLast_subset _ hm))
    (by simp) hfollow
  simp only [Option.guard_eq_some', Bool.and_eq_true, Bool.not_eq_true',
    decide_eq_true_eq] at hname hplace
  obtain ⟨⟨hempty, hcurrent⟩, hparent⟩ := hname
  exact h.put hn ⟨hparts name (List.mem_of_getLast? hlast), by simpa using hempty, hcurrent, hparent⟩
    hplace.1 (Or.inr hplace.2)

/-- Folders are created on the way, each in the one before. -/
theorem isSound_of_makeFolders {components : List Path.Component} {location' : Location}
    (h : t.IsSound) (hf : t.hasFolder location = true) (hn : ∀ name ∈ location, IsName name)
    (hc : ∀ name, .normal name ∈ components → IsName name)
    (hm : t.makeFolders location components = some (t', location')) : t'.IsSound := by
  induction components generalizing t location with
  | nil =>
    obtain ⟨rfl, -⟩ := Prod.mk.inj (Option.some.inj hm)
    exact h
  | cons c rest ih =>
    have hrest : ∀ name, .normal name ∈ rest → IsName name :=
      fun name hr => hc name (List.mem_cons_of_mem _ hr)
    cases c with
    | root => cases hm
    | current => exact ih h hf hn hrest hm
    | parent =>
      exact ih h (h.hasFolder_dropLast hf) (fun name hd => hn name (List.dropLast_subset _ hd))
        hrest hm
    | normal name =>
      have hname := hc name List.mem_cons_self
      have hnames : ∀ part ∈ location ++ [name], IsName part := by
        intro part hp
        rcases List.mem_append.mp hp with hp | hp
        · exact hn part hp
        · exact List.mem_singleton.mp hp ▸ hname
      simp only [makeFolders, Option.bind_eq_bind, Option.bind_eq_some_iff] at hm
      obtain ⟨_, -, u, hu, hm⟩ := hm
      unfold ensureFolder at hu
      split at hu
      · obtain rfl := Option.some.inj hu
        exact ih h (hasFolder_iff.mpr ‹_›) hnames hrest hm
      · cases hu
      · obtain rfl := Option.some.inj hu
        refine ih (h.put hn hname hf (Or.inl rfl)) ?_ hnames hrest hm
        rw [hasFolder_iff, at?_put_self (by simp)]

/-- Creating a file, and the folders on the way to it, keeps a tree sound. -/
theorem IsSound.create (h : t.IsSound) (path : String) (content : ByteArray) (modified : Time) :
    (t.create path content modified).IsSound := by
  unfold FileTree.create
  split
  · rename_i u hu
    obtain ⟨⟨u', location⟩, hm, rfl⟩ := Option.map_eq_some_iff.mp hu
    have hs : u'.IsSound := isSound_of_makeFolders h (hasFolder_nil t) (by simp)
      (fun name hc => Path.isName_of_mem hc) hm
    cases hw : u'.write path content modified with
    | none => exact hs
    | some written => exact hs.write hw
  · exact h

/-- Removing a file, or a folder with everything in it, keeps a tree sound. -/
theorem IsSound.remove (h : t.IsSound) (path : String) : (t.remove path).IsSound := by
  unfold FileTree.remove
  split
  · rename_i location _
    refine ⟨fun x hx => h.names x (List.mem_filter.mp hx).1, fun x hx => ?_⟩
    obtain ⟨hx, hkept⟩ := List.mem_filter.mp hx
    have hfolder := h.folders x hx
    have hout : location.isPrefixOf x.1.dropLast = false := by
      rw [Bool.eq_false_iff]
      intro hp
      have hp := (List.isPrefixOf_iff_prefix.mp hp).trans (List.dropLast_prefix x.1)
      simp [List.isPrefixOf_iff_prefix.mpr hp] at hkept
    rw [hasFolder_iff] at hfolder ⊢
    rw [← hfolder, at?, at?, find?_filter_of_imp]
    intro y hy
    simp [of_decide_eq_true hy, hout]
  · exact h

theorem follow_append (t : FileTree) (location : Location) (parts more : List String) :
    t.follow location (parts ++ more) =
      (t.follow location parts).bind (t.follow · more) := by
  induction parts generalizing location with
  | nil => rfl
  | cons part rest ih =>
    rw [List.cons_append, follow, follow]
    split
    · rfl
    · split
      · exact ih _
      · split
        · exact ih _
        · exact ih _

/-- What is listed in a folder has a proper name. -/
theorem IsSound.isName_of_list (h : t.IsSound) {x : String × Entry}
    (hx : x ∈ (t.list? path).getD []) : IsName x.1 := by
  unfold list? at hx
  split at hx
  · split at hx
    · obtain ⟨⟨location, entry⟩, hy, hname⟩ := List.mem_filterMap.mp hx
      dsimp only at hname
      split at hname
      · rename_i hlast
        split at hname
        · obtain rfl := Option.some.inj hname
          exact h.names _ hy _ (List.mem_of_getLast? hlast)
        · cases hname
      · cases hname
    · cases hx
  · cases hx

end RequestRouting.FileTree
