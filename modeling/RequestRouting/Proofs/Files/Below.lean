import RequestRouting.Files.Path
import RequestRouting.Proofs.Text.Pieces

/-!
# Paths below other paths

A path is below another one if it goes on from there by names and dots only, never up or back to the
root of the file system. That's so if what is joined to a path is relative and has no part that leads
up.
-/

namespace RequestRouting

namespace Path

/-- Whether a component is a name or a dot. -/
def Component.isInner : Component → Bool
  | normal _ | current => true
  | root | parent => false

/-- Whether a path goes on from another one by names and dots only. -/
def IsBelow (root path : String) : Prop :=
  ∃ rest, components path = components root ++ rest ∧ ∀ c ∈ rest, c.isInner = true

/-- A name in a folder. -/
structure IsName (name : String) : Prop where
  slash : '/' ∉ name.toList
  ne_empty : name ≠ ""
  ne_current : name ≠ "."
  ne_parent : name ≠ ".."

/-- A relative path without parts that lead up. -/
structure IsInner (path : String) : Prop where
  relative : isAbsolute path = false
  parts : ".." ∉ Text.pieces '/' path

variable {path a b root : String}

theorem isAbsolute_append (ha : a ≠ "") (b : String) : isAbsolute (a ++ b) = isAbsolute a := by
  unfold isAbsolute Text.startsWith
  cases hs : a.toList with
  | nil => exact absurd (String.toList_eq_nil_iff.mp hs) ha
  | cons c rest =>
    have hslash : "/".toList = ['/'] := by decide
    rw [String.toList_append, hs, hslash, List.cons_append]
    simp only [Text.Chars.dropLead?]
    split <;> rfl

/-- The first part of a path only counts if the path is relative. -/
theorem components_eq {first : String} {more : List String}
    (h : Text.pieces '/' path = first :: more) : components path =
      (if isAbsolute path then [.root] else (Component.ofPart? true first).toList) ++
        more.filterMap (Component.ofPart? false) := by
  unfold components
  cases hd : Text.dropLead? "/" path with
  | none =>
    have ha : isAbsolute path = false := by
      rw [isAbsolute, Bool.eq_false_iff]
      intro hs
      obtain ⟨rest, rfl⟩ := Text.startsWith_iff.mp hs
      rw [Text.dropLead?_eq_some.mpr rfl] at hd
      cases hd
    rw [h, ha]
    rfl
  | some rest =>
    obtain rfl := Text.dropLead?_eq_some.mp hd
    have ha : isAbsolute ("/" ++ rest) = true := Text.startsWith_iff.mpr ⟨rest, rfl⟩
    have hp : Text.pieces '/' ("/" ++ rest) = "" :: Text.pieces '/' rest := Text.pieces_slash "" rest
    obtain ⟨-, rfl⟩ := List.cons.inj (hp.symm.trans h)
    rw [ha]
    rfl

/-- What follows a path that isn't empty can't be its first part. -/
theorem components_join (ha : a ≠ "") (hb : isAbsolute b = false) : components (join a b) =
    components a ++ (Text.pieces '/' b).filterMap (Component.ofPart? false) := by
  have hempty : a.isEmpty = false := by simpa using ha
  rw [join, hb, hempty, Bool.false_or, if_neg Bool.false_ne_true]
  split
  · rename_i hs
    obtain ⟨before, rfl⟩ := Text.endsWith_iff.mp hs
    obtain ⟨first, more, hp⟩ := List.exists_cons_of_ne_nil (Text.pieces_ne_nil '/' before)
    have hpa : Text.pieces '/' (before ++ "/") = first :: (more ++ [""]) := by
      have h := Text.pieces_slash before ""
      rwa [String.append_empty, hp] at h
    have hpb : Text.pieces '/' (before ++ "/" ++ b) = first :: (more ++ Text.pieces '/' b) := by
      rw [Text.pieces_slash, hp, List.cons_append]
    rw [components_eq hpa, components_eq hpb, isAbsolute_append ha, List.filterMap_append,
      List.filterMap_append, ← List.append_assoc]
    simp [Component.ofPart?]
  · obtain ⟨first, more, hp⟩ := List.exists_cons_of_ne_nil (Text.pieces_ne_nil '/' a)
    have hpb : Text.pieces '/' (a ++ "/" ++ b) = first :: (more ++ Text.pieces '/' b) := by
      rw [Text.pieces_slash, hp, List.cons_append]
    rw [components_eq hp, components_eq hpb, String.append_assoc, isAbsolute_append ha,
      List.filterMap_append, List.append_assoc]

theorem isInner_ofPart? {isFirst : Bool} {part : String} {c : Component} (hp : part ≠ "..")
    (h : Component.ofPart? isFirst part = some c) : c.isInner = true := by
  unfold Component.ofPart? at h
  split at h
  · cases h
  · split at h
    · split at h
      · obtain rfl := Option.some.inj h
        rfl
      · cases h
    · obtain rfl := Option.some.inj h
      rfl

theorem isInner_of_mem_filterMap {parts : List String} (hp : ".." ∉ parts) {c : Component}
    (h : c ∈ parts.filterMap (Component.ofPart? false)) : c.isInner = true := by
  obtain ⟨part, hm, hc⟩ := List.mem_filterMap.mp h
  exact isInner_ofPart? (fun he => hp (he ▸ hm)) hc

/-- A path has names and dots only exactly if it's relative and has no part that leads up. -/
theorem all_isInner_iff : (components path).all Component.isInner = true ↔ IsInner path := by
  obtain ⟨first, more, hp⟩ := List.exists_cons_of_ne_nil (Text.pieces_ne_nil '/' path)
  rw [components_eq hp, List.all_append, Bool.and_eq_true, List.all_eq_true, List.all_eq_true]
  have hup {isFirst : Bool} : Component.ofPart? isFirst ".." = some .parent := by
    cases isFirst <;> rfl
  constructor
  · rintro ⟨hf, hm⟩
    have ha : isAbsolute path = false := by
      rw [Bool.eq_false_iff]
      intro ha
      rw [if_pos ha] at hf
      exact absurd (hf _ (List.mem_singleton_self _)) (by simp [Component.isInner])
    refine ⟨ha, fun hmem => ?_⟩
    rw [if_neg (by simp [ha])] at hf
    rw [hp] at hmem
    rcases List.mem_cons.mp hmem with rfl | hmem
    · exact absurd (hf .parent (by simp [hup])) (by simp [Component.isInner])
    · exact absurd (hm .parent (List.mem_filterMap.mpr ⟨_, hmem, hup⟩)) (by simp [Component.isInner])
  · rintro ⟨ha, hn⟩
    rw [hp, List.mem_cons, not_or] at hn
    refine ⟨fun c hc => ?_, fun c hc => isInner_of_mem_filterMap hn.2 hc⟩
    rw [if_neg (by simp [ha])] at hc
    exact isInner_ofPart? (Ne.symm hn.1) (Option.mem_toList.mp hc)

theorem IsBelow.refl (root : String) : IsBelow root root := ⟨[], by simp, by simp⟩

/-- What is joined to a path below another one is below that one, too. -/
theorem IsBelow.join (h : IsBelow root a) (hb : IsInner b) : IsBelow root (join a b) := by
  obtain ⟨rest, ha, hrest⟩ := h
  by_cases he : a = ""
  · subst he
    have hroot : components root = [] := by
      have hnil : components root ++ rest = [] := ha.symm
      exact (List.append_eq_nil_iff.mp hnil).1
    have hj : Path.join "" b = b := by
      rw [Path.join, hb.relative, if_neg Bool.false_ne_true]
      simp
    refine ⟨components b, by rw [hj, hroot, List.nil_append], ?_⟩
    exact List.all_eq_true.mp (all_isInner_iff.mpr hb)
  · refine ⟨rest ++ (Text.pieces '/' b).filterMap (Component.ofPart? false), ?_, ?_⟩
    · rw [components_join he hb.relative, ha, List.append_assoc]
    · intro c hc
      rcases List.mem_append.mp hc with hc | hc
      · exact hrest c hc
      · exact isInner_of_mem_filterMap hb.parts hc

/-- A text without slashes is a single part. -/
theorem isInner_of_not_mem (hs : '/' ∉ path.toList) (hp : path ≠ "..") : IsInner path := by
  refine ⟨?_, ?_⟩
  · rw [isAbsolute, Bool.eq_false_iff]
    intro h
    obtain ⟨rest, rfl⟩ := Text.startsWith_iff.mp h
    exact hs (by simp)
  · rw [Text.pieces_eq_singleton hs, List.mem_singleton]
    exact Ne.symm hp

theorem IsName.isInner {name : String} (h : IsName name) : IsInner name :=
  isInner_of_not_mem h.slash h.ne_parent

/-- Components that are names are names of files and folders. -/
theorem isName_of_mem {name : String} (h : .normal name ∈ components path) : IsName name := by
  obtain ⟨first, more, hp⟩ := List.exists_cons_of_ne_nil (Text.pieces_ne_nil '/' path)
  have hpart {isFirst : Bool} {part : String} (hm : part ∈ Text.pieces '/' path)
      (hc : Component.ofPart? isFirst part = some (.normal name)) : IsName name := by
    unfold Component.ofPart? at hc
    split at hc
    · cases hc
    · rename_i hempty
      split at hc
      · split at hc <;> cases hc
      · split at hc
        · cases hc
        · obtain rfl := Component.normal.inj (Option.some.inj hc)
          exact ⟨Text.not_mem_of_mem_pieces hm, by simpa using hempty, ‹_›, ‹_›⟩
  rw [components_eq hp] at h
  rcases List.mem_append.mp h with h | h
  · split at h
    · simp at h
    · exact hpart (by rw [hp]; exact List.mem_cons_self) (Option.mem_toList.mp h)
  · obtain ⟨part, hm, hc⟩ := List.mem_filterMap.mp h
    exact hpart (by rw [hp]; exact List.mem_cons_of_mem _ hm) hc

theorem isName_of_fileName? {name : String} (h : fileName? path = some name) : IsName name := by
  unfold fileName? at h
  split at h
  · rename_i last hl
    obtain rfl := Option.some.inj h
    exact isName_of_mem (List.mem_of_getLast? hl)
  · cases h

theorem trimParts_subset (parts : List String) : trimParts parts ⊆ parts := by
  cases parts with
  | nil => exact fun _ h => h
  | cons first rest =>
    refine List.cons_subset_cons _ fun part hm => ?_
    exact List.mem_reverse.mp ((List.dropWhile_sublist _).subset (List.mem_reverse.mp hm))

theorem trimParts_cons (first : String) (rest : List String) :
    ∃ more, trimParts (first :: rest) = first :: more ∧ (rest = [] → more = []) :=
  ⟨_, rfl, by rintro rfl; rfl⟩

/-- Only the root of the file system has an empty part in front of others. -/
theorem isAbsolute_of_pieces {more : List String} (h : Text.pieces '/' path = "" :: more)
    (hm : more ≠ []) : isAbsolute path = true := by
  cases hs : path.toList with
  | nil =>
    rw [String.toList_eq_nil_iff] at hs
    subst hs
    obtain ⟨-, rfl⟩ := List.cons.inj h
    exact absurd rfl hm
  | cons c rest =>
    by_cases hc : c = '/'
    · subst hc
      exact Text.startsWith_iff.mpr ⟨.ofList rest, String.ext (by simp [hs])⟩
    · rw [Text.pieces, hs, Text.Chars.pieces, if_neg hc] at h
      split at h <;> simp at h

/-- Leaving out the last component leads neither up nor to the root of the file system. -/
theorem IsInner.parent (h : IsInner path) : IsInner (parent path) := by
  obtain ⟨first, more, hp⟩ := List.exists_cons_of_ne_nil (Text.pieces_ne_nil '/' path)
  obtain ⟨kept, hkept, hnil⟩ := trimParts_cons first more
  unfold Path.parent
  rw [hp, hkept]
  cases kept with
  | nil =>
    have hempty : Text.join "/" (trimParts [first].dropLast) = "" := rfl
    rw [hempty]
    exact ⟨by decide, by decide⟩
  | cons second kept =>
    rw [List.dropLast_cons_cons]
    obtain ⟨others, hothers, -⟩ := trimParts_cons first (second :: kept).dropLast
    rw [hothers]
    have hsub : first :: others ⊆ Text.pieces '/' path := by
      rw [hp, ← hothers]
      intro part hm
      have hm := List.mem_cons.mp (trimParts_subset _ hm)
      refine hm.elim (fun he => he ▸ List.mem_cons_self) fun hm => trimParts_subset _ ?_
      rw [hkept]
      exact List.mem_cons_of_mem _ (List.dropLast_subset _ hm)
    have hpieces := Text.pieces_join (List.cons_ne_nil first others) fun part hm =>
      Text.not_mem_of_mem_pieces (hsub hm)
    refine ⟨?_, fun hm => h.parts (hsub (by rwa [hpieces] at hm))⟩
    rw [Bool.eq_false_iff]
    intro ha
    obtain ⟨rest, hr⟩ := Text.startsWith_iff.mp ha
    have hslash : Text.pieces '/' ("/" ++ rest) = "" :: Text.pieces '/' rest :=
      Text.pieces_slash "" rest
    rw [hr, hslash] at hpieces
    obtain ⟨rfl, -⟩ := List.cons.inj hpieces
    have hmore : more ≠ [] := by
      rintro rfl
      cases hnil rfl
    have hrel := h.relative
    rw [isAbsolute_of_pieces hp hmore] at hrel
    cases hrel

end Path

end RequestRouting
