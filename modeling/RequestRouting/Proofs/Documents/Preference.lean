import RequestRouting.Proofs.Files.Confined

/-!
# Which document is found

A name without parts that lead elsewhere stands for a file in one of two places: a file by its last
segment in the directory before it, or else the default document in the directory of that name. In
each of them the file with the default extension is preferred over all others, of which the first one
in the order of their names is taken. Files with another token in front of their extension are never
found, whatever dots there are in a name.
-/

namespace RequestRouting

open RequestRouting.Path (IsName)

namespace FileTree

variable {t : FileTree} {location : Location} {directory name : String}

theorem isFolder_iff : t.isFolder directory = true ↔
    ∃ location, t.locate directory = some location ∧ t.hasFolder location = true := by
  unfold isFolder find?
  cases t.locate directory with
  | none => simp
  | some location => simp [hasFolder]

theorem list?_eq (hl : t.locate directory = some location) (hf : t.hasFolder location = true) :
    t.list? directory = some (t.children location) := by
  simp [list?, hl, hf]

/-- A name that is joined to a path is its last part. -/
theorem exists_parts_join (hn : IsName name) (hd : directory ≠ "") :
    ∃ parts, Text.pieces '/' (Path.join directory name) = parts ++ [name] ∧
      (Text.pieces '/' directory = parts ∨ Text.pieces '/' directory = parts ++ [""]) := by
  have hname := Text.pieces_eq_singleton hn.slash
  unfold Path.join
  rw [if_neg (by simp [hn.isInner.relative])]
  split
  · rename_i hs
    obtain ⟨before, rfl⟩ := Text.endsWith_iff.mp (by simpa [hd] using hs)
    refine ⟨Text.pieces '/' before, by rw [Text.pieces_slash, hname], Or.inr ?_⟩
    have hempty := Text.pieces_slash before ""
    rwa [String.append_empty] at hempty
  · exact ⟨Text.pieces '/' directory, by rw [Text.pieces_slash, hname], Or.inl rfl⟩

/-- A name in a folder leads on from where the path of the folder leads. -/
theorem locate_join (hn : IsName name) (hl : t.locate directory = some location)
    (hf : t.hasFolder location = true) (hu : Path.isUsable (Path.join directory name) = true) :
    t.locate (Path.join directory name) = some (location ++ [name]) := by
  unfold locate at hl
  split at hl
  · cases hl
  · rename_i hpath
    obtain ⟨⟨hempty, habsolute⟩, -⟩ : (directory ≠ "" ∧ Path.isAbsolute directory = false) ∧ _ := by
      simpa using hpath
    obtain ⟨parts, hparts, hdirectory⟩ := exists_parts_join hn hempty
    have hfollow : t.follow [] parts = some location := by
      obtain hd | hd := hdirectory
      · rwa [hd] at hl
      · -- the slash at the end of the path requires the folder, and nothing else
        rw [hd, follow_append] at hl
        obtain ⟨folder, hfolder, hlast⟩ := Option.bind_eq_some_iff.mp hl
        rw [follow] at hlast
        split at hlast
        · cases hlast
        · obtain rfl : folder = location := by simpa [follow] using hlast
          exact hfolder
    have hrelative : Path.isAbsolute (Path.join directory name) = false := by
      unfold Path.join
      rw [if_neg (by simp [hn.isInner.relative])]
      split
      · rw [Path.isAbsolute_append hempty, habsolute]
      · rw [String.append_assoc, Path.isAbsolute_append hempty, habsolute]
    have hne : Path.join directory name ≠ "" := by
      intro he
      rw [he] at hparts
      have hlast := congrArg List.getLast? hparts
      rw [List.getLast?_concat] at hlast
      exact hn.ne_empty (Option.some.inj hlast).symm
    rw [locate, if_neg (by simp [hne, hrelative, hu]), hparts, follow_append, hfollow]
    simp [follow, hf, hn.ne_empty, hn.ne_current, hn.ne_parent]

/-- A file in a folder is listed there. -/
theorem exists_listed (hn : IsName name) (hf : t.isFolder directory = true)
    (h : t.isFile (Path.join directory name) = true) :
    ∃ entry, (name, entry) ∈ (t.list? directory).getD [] := by
  obtain ⟨location, hl, hfolder⟩ := isFolder_iff.mp hf
  have hu : Path.isUsable (Path.join directory name) = true := by
    by_contra hu
    rw [isFile, find?, locate, if_pos (by simp [hu])] at h
    cases h
  unfold isFile find? at h
  rw [locate_join hn hl hfolder hu] at h
  rw [list?_eq hl hfolder]
  unfold at? at h
  rw [Option.bind_some, if_neg (by simp)] at h
  cases hfind : t.entries.find? fun x => x.1 = location ++ [name] with
  | none => simp [hfind] at h
  | some x =>
    have hx : x.1 = location ++ [name] := by simpa using List.find?_some hfind
    refine ⟨x.2, List.mem_filterMap.mpr ⟨x, List.mem_of_find?_eq_some hfind, ?_⟩⟩
    simp [hx]

theorem isFolder_of_mem_list {x : String × Entry} (hx : x ∈ (t.list? directory).getD []) :
    t.isFolder directory = true := by
  unfold list? at hx
  split at hx
  · split at hx
    · exact isFolder_iff.mpr ⟨_, ‹_›, ‹_›⟩
    · cases hx
  · cases hx

end FileTree

namespace DocumentSource

variable {s : DocumentSource} {t : FileTree} {directory base lead file extension name path : String}

/-- Whether the parts of file names that a source goes by have neither slashes nor dots. -/
structure IsPlain (s : DocumentSource) : Prop where
  token : ∀ token, s.token = some token → '/' ∉ token.toList ∧ '.' ∉ token.toList
  defaultName : '/' ∉ s.defaultName.toList ∧ '.' ∉ s.defaultName.toList
  extension : '/' ∉ s.defaultExtension.toList ∧ '.' ∉ s.defaultExtension.toList

/-- Whether there is a file in a folder with a lead in front of its extension, which isn't empty and
has no dot in it. -/
structure IsChoice (t : FileTree) (directory lead file extension : String) : Prop where
  name : file = lead ++ extension
  nonempty : extension ≠ ""
  dot : '.' ∉ extension.toList
  slash : '/' ∉ extension.toList
  folder : t.isFolder directory = true
  isFile : t.isFile (Path.join directory file) = true

/-- The file with a base name that is found in a folder, and its extension: the one with the default
extension if there is one, or else the first one in the order of the names. -/
inductive FindsIn (s : DocumentSource) (t : FileTree) (directory base : String) :
    String → String → Prop where
  | preferred (h : t.isFile (Path.join directory (s.lead base ++ s.defaultExtension)) = true) :
      FindsIn s t directory base (s.lead base ++ s.defaultExtension) s.defaultExtension
  | first {file extension : String}
      (hn : t.isFile (Path.join directory (s.lead base ++ s.defaultExtension)) = false)
      (hc : IsChoice t directory (s.lead base) file extension)
      (hf : ∀ file' extension', IsChoice t directory (s.lead base) file' extension' →
        file ≤ file') : FindsIn s t directory base file extension

theorem extensionAfter?_eq_some_iff : extensionAfter? lead file = some extension ↔
    file = lead ++ extension ∧ extension ≠ "" ∧ '.' ∉ extension.toList := by
  unfold extensionAfter?
  rw [Option.filter_eq_some_iff, Text.dropLead?_eq_some]
  simp

/-- A file that ends in an extension has a proper name. -/
theorem IsChoice.isName (hl : '/' ∉ lead.toList)
    (h : IsChoice t directory lead file extension) : IsName file := by
  have hlast : file.toList.getLast? ≠ some '.' := by
    intro he
    rw [h.name, String.toList_append, List.getLast?_append] at he
    cases hx : extension.toList.getLast? with
    | none => exact h.nonempty (String.toList_eq_nil_iff.mp (List.getLast?_eq_none_iff.mp hx))
    | some c =>
      rw [hx] at he
      obtain rfl := Option.some.inj he
      exact h.dot (List.mem_of_getLast? hx)
  constructor
  · rw [h.name, String.toList_append, List.mem_append, not_or]
    exact ⟨hl, h.slash⟩
  · intro he
    rw [h.name, String.append_eq_empty_iff] at he
    exact h.nonempty he.2
  · rintro rfl
    exact hlast (by decide)
  · rintro rfl
    exact hlast (by decide)

theorem mem_candidates_iff (ht : t.IsSound) (hl : '/' ∉ lead.toList) :
    (file, extension) ∈ candidates t directory lead ↔
      IsChoice t directory lead file extension := by
  rw [candidates, List.mem_mergeSort, List.mem_filterMap]
  constructor
  · rintro ⟨⟨listed, entry⟩, hx, hc⟩
    obtain ⟨found, hfound, hc⟩ := Option.bind_eq_some_iff.mp hc
    split at hc
    · rename_i hfile
      obtain ⟨rfl, rfl⟩ := Prod.mk.inj (Option.some.inj hc)
      obtain ⟨hlisted, hne, hdot⟩ := extensionAfter?_eq_some_iff.mp hfound
      have hslash := (ht.isName_of_list hx).slash
      dsimp only at hlisted hslash
      rw [hlisted, String.toList_append, List.mem_append, not_or] at hslash
      exact ⟨hlisted, hne, hdot, hslash.2, FileTree.isFolder_of_mem_list hx, hfile⟩
    · cases hc
  · intro h
    obtain ⟨entry, hx⟩ := FileTree.exists_listed (h.isName hl) h.folder h.isFile
    refine ⟨(file, entry), hx, ?_⟩
    dsimp only
    rw [extensionAfter?_eq_some_iff.mpr ⟨h.name, h.nonempty, h.dot⟩, Option.bind_some,
      if_pos h.isFile]

/-- The first one of all candidates has the smallest name. -/
theorem head?_candidates_iff (ht : t.IsSound) (hl : '/' ∉ lead.toList) :
    (candidates t directory lead).head? = some (file, extension) ↔
      IsChoice t directory lead file extension ∧
        ∀ file' extension', IsChoice t directory lead file' extension' → file ≤ file' := by
  have hsorted : (candidates t directory lead).Pairwise fun a b => a.1 ≤ b.1 := by
    refine (List.pairwise_mergeSort ?_ ?_ _).imp fun h => of_decide_eq_true h
    · intro a b c hab hbc
      exact decide_eq_true (String.le_trans (of_decide_eq_true hab) (of_decide_eq_true hbc))
    · intro a b
      simpa using String.le_total a.1 b.1
  have hmem (file extension : String) : (file, extension) ∈ candidates t directory lead ↔
      IsChoice t directory lead file extension := mem_candidates_iff ht hl
  simp only [← hmem]
  cases hc : candidates t directory lead with
  | nil => simp
  | cons x rest =>
    rw [hc] at hsorted
    have hfirst : ∀ y ∈ x :: rest, x.1 ≤ y.1 :=
      List.forall_mem_cons.mpr ⟨String.le_refl _, (List.pairwise_cons.mp hsorted).1⟩
    rw [List.head?_cons, Option.some.injEq]
    constructor
    · rintro rfl
      exact ⟨List.mem_cons_self, fun file' extension' hm => hfirst _ hm⟩
    · rintro ⟨hm, hle⟩
      -- names that are the same have the same extension
      have hname : x.1 = file := String.le_antisymm (hfirst _ hm) (hle x.1 x.2 List.mem_cons_self)
      have hx := ((hmem x.1 x.2).mp (by rw [hc]; exact List.mem_cons_self)).name
      have hfile := ((hmem file extension).mp (by rw [hc]; exact hm)).name
      rw [hname, hfile, String.append_right_inj] at hx
      exact Prod.ext hname hx.symm

/-- What is found in a folder is the file that is preferred there. -/
theorem findIn?_eq_some_iff (ht : t.IsSound) (hl : '/' ∉ (s.lead base).toList) :
    s.findIn? t directory base = some (path, extension) ↔
      ∃ file, s.FindsIn t directory base file extension ∧ path = Path.join directory file := by
  unfold findIn?
  dsimp only
  constructor
  · intro h
    split at h
    · rename_i hfile
      obtain ⟨rfl, rfl⟩ := Prod.mk.inj (Option.some.inj h)
      exact ⟨_, .preferred hfile, rfl⟩
    · rename_i hn
      obtain ⟨⟨file, ext⟩, hhead, he⟩ := Option.map_eq_some_iff.mp h
      obtain ⟨rfl, rfl⟩ := Prod.mk.inj he
      obtain ⟨hc, hf⟩ := (head?_candidates_iff ht hl).mp hhead
      exact ⟨file, .first (by simpa using hn) hc hf, rfl⟩
  · rintro ⟨file, hfinds, rfl⟩
    cases hfinds with
    | preferred h => rw [if_pos h]
    | first hn hc hf =>
      rw [if_neg (by simp [hn]), (head?_candidates_iff ht hl).mpr ⟨hc, hf⟩]
      rfl

/-- What is found has the lead of the name in front of its extension. -/
theorem FindsIn.file_eq (h : s.FindsIn t directory base file extension) :
    file = s.lead base ++ extension := by
  cases h with
  | preferred _ => rfl
  | first _ hc _ => exact hc.name

theorem FindsIn.isFile (h : s.FindsIn t directory base file extension) :
    t.isFile (Path.join directory file) = true := by
  cases h with
  | preferred h => exact h
  | first _ hc _ => exact hc.isFile

theorem FindsIn.dot (hs : s.IsPlain) (h : s.FindsIn t directory base file extension) :
    '.' ∉ extension.toList := by
  cases h with
  | preferred _ => exact hs.extension.2
  | first _ hc _ => exact hc.dot

/-- Whether a document is the one that is preferred for a name: what is found by its last segment in
the directory before it, or else the default document in the directory of that name. -/
inductive Prefers (s : DocumentSource) (t : FileTree) (name : String) (d : Document) : Prop where
  | segment {base file : String} (hb : Path.fileName? name = some base)
      (hf : s.FindsIn t (Path.join s.root (Path.parent name)) base file d.extension)
      (hp : d.path = Path.join (Path.join s.root (Path.parent name)) file)
  | directory {file : String}
      (hn : ∀ base, Path.fileName? name = some base → ∀ file extension,
        ¬s.FindsIn t (Path.join s.root (Path.parent name)) base file extension)
      (hf : s.FindsIn t (Path.join s.root name) s.defaultName file d.extension)
      (hp : d.path = Path.join (Path.join s.root name) file)

/-- Whether a file has a token in front of its extension. -/
def HasToken (file token : String) : Prop :=
  '.' ∉ token.toList ∧ ∃ base extension, '.' ∉ extension.toList ∧
    file = base ++ "." ++ token ++ "." ++ extension

theorem IsPlain.slash_lead (hs : s.IsPlain) (hb : '/' ∉ base.toList) :
    '/' ∉ (s.lead base).toList := by
  unfold lead
  cases ht : s.token with
  | none => simp [hb]
  | some token => simp [hb, (hs.token token ht).1]

theorem findIn?_eq_none_iff (ht : t.IsSound) (hl : '/' ∉ (s.lead base).toList) :
    s.findIn? t directory base = none ↔
      ∀ file extension, ¬s.FindsIn t directory base file extension := by
  rw [Option.eq_none_iff_forall_ne_some]
  constructor
  · intro h file extension hf
    exact h (Path.join directory file, extension) ((findIn?_eq_some_iff ht hl).mpr ⟨file, hf, rfl⟩)
  · rintro h ⟨path, extension⟩ hp
    obtain ⟨file, hf, -⟩ := (findIn?_eq_some_iff ht hl).mp hp
    exact h file extension hf

theorem prefers_iff_of_none {d : Document} (hb : Path.fileName? name = none) :
    s.Prefers t name d ↔ ∃ file, s.FindsIn t (Path.join s.root name) s.defaultName file d.extension ∧
      d.path = Path.join (Path.join s.root name) file := by
  constructor
  · rintro (⟨hb', -, -⟩ | ⟨-, hf, hp⟩)
    · cases hb.symm.trans hb'
    · exact ⟨_, hf, hp⟩
  · rintro ⟨file, hf, hp⟩
    exact .directory (by simp [hb]) hf hp

theorem prefers_iff_of_some {d : Document} (hb : Path.fileName? name = some base) :
    s.Prefers t name d ↔
      (∃ file, s.FindsIn t (Path.join s.root (Path.parent name)) base file d.extension ∧
        d.path = Path.join (Path.join s.root (Path.parent name)) file) ∨
      (∀ file extension, ¬s.FindsIn t (Path.join s.root (Path.parent name)) base file extension) ∧
        ∃ file, s.FindsIn t (Path.join s.root name) s.defaultName file d.extension ∧
          d.path = Path.join (Path.join s.root name) file := by
  constructor
  · rintro (⟨hb', hf, hp⟩ | ⟨hn, hf, hp⟩)
    · obtain rfl := Option.some.inj (hb.symm.trans hb')
      exact .inl ⟨_, hf, hp⟩
    · exact .inr ⟨hn base hb, _, hf, hp⟩
  · rintro (⟨file, hf, hp⟩ | ⟨hn, file, hf, hp⟩)
    · exact .segment hb hf hp
    · refine .directory (fun base' hb' => ?_) hf hp
      obtain rfl := Option.some.inj (hb.symm.trans hb')
      exact hn

/-- Of the places for a name, the first one that has something decides. -/
theorem findSome?_places_iff (ht : t.IsSound) (hs : s.IsPlain) (name : String) (d : Document) :
    (s.places name).findSome? (fun (directory, base) => s.findIn? t directory base) =
      some (d.path, d.extension) ↔ s.Prefers t name d := by
  have hdefault := hs.slash_lead hs.defaultName.1
  unfold places
  cases hbase : Path.fileName? name with
  | none =>
    rw [Option.map_none, Option.toList_none, List.nil_append, List.findSome?_singleton,
      findIn?_eq_some_iff ht hdefault, prefers_iff_of_none hbase]
  | some base =>
    have hlead := hs.slash_lead (Path.isName_of_fileName? hbase).slash
    rw [Option.map_some, Option.toList_some, List.singleton_append, List.findSome?_cons,
      List.findSome?_singleton, prefers_iff_of_some hbase, ← findIn?_eq_some_iff ht hlead,
      ← findIn?_eq_none_iff ht hlead, ← findIn?_eq_some_iff ht hdefault]
    dsimp only
    cases s.findIn? t (Path.join s.root (Path.parent name)) base with
    | some found => simp
    | none => simp

theorem lookup_eq_none (hn : ∃ c ∈ Path.components name, ∀ part, c ≠ .normal part) :
    s.lookup t name = none := by
  obtain ⟨c, hc, hnormal⟩ := hn
  unfold lookup
  dsimp only
  rw [if_pos]
  rw [Bool.not_eq_true', List.all_eq_false]
  refine ⟨c, hc, ?_⟩
  cases c with
  | normal part => exact absurd rfl (hnormal part)
  | root => simp
  | current => simp
  | parent => simp

theorem lookup_eq_some_iff (ht : t.IsSound) (hs : s.IsPlain)
    (hn : ∀ c ∈ Path.components name, ∃ part, c = .normal part) (d : Document) :
    s.lookup t name = some d ↔
      d.name = name ∧ d.modified = t.modified? d.path ∧ s.Prefers t name d := by
  unfold lookup
  dsimp only
  rw [if_neg, Option.map_eq_some_iff]
  · simp only [← findSome?_places_iff ht hs]
    constructor
    · rintro ⟨⟨path, extension⟩, hfind, rfl⟩
      exact ⟨rfl, rfl, hfind⟩
    · rintro ⟨hname, hmodified, hfind⟩
      refine ⟨_, hfind, ?_⟩
      cases d
      simp_all
  · rw [Bool.not_eq_true', Bool.not_eq_false, List.all_eq_true]
    intro c hc
    obtain ⟨part, rfl⟩ := hn c hc
    rfl

/-- A file that is found by a base name has no other token behind that name. -/
theorem FindsIn.ne_of_token (hs : s.IsPlain) (h : s.FindsIn t directory base file extension)
    {other : String} (ho : '.' ∉ other.toList) (hne : s.token ≠ some other) (rest : String) :
    file ≠ base ++ "." ++ other ++ "." ++ rest := by
  intro he
  have hdot := h.dot hs
  rw [h.file_eq, lead] at he
  cases ht : s.token with
  | none =>
    simp only [ht, String.append_assoc, String.append_right_inj] at he
    exact hdot (by simp [he])
  | some token =>
    simp only [ht, String.append_assoc, String.append_right_inj] at he
    have hcut := Text.cut?_append (hs.token token ht).2 extension
    have hcut' := Text.cut?_append ho rest
    rw [String.append_assoc] at hcut hcut'
    have hpair := (hcut.symm.trans (congrArg _ he)).trans hcut'
    simp at hpair
    exact hne (ht.trans (congrArg _ hpair.1))

/-- A text is cut at its last dot in one way only. -/
theorem append_dot_inj {a b x y : String} (hx : '.' ∉ x.toList) (hy : '.' ∉ y.toList)
    (h : a ++ "." ++ x = b ++ "." ++ y) : a = b ∧ x = y := by
  have hr : x.toList.reverse ++ '.' :: a.toList.reverse =
      y.toList.reverse ++ '.' :: b.toList.reverse := by
    simpa using congrArg (·.toList.reverse) h
  have hcut := Text.Chars.cut?_append (List.mem_reverse.not.mpr hx) a.toList.reverse
  rw [hr, Text.Chars.cut?_append (List.mem_reverse.not.mpr hy)] at hcut
  obtain ⟨hback, hfront⟩ := Prod.mk.inj (Option.some.inj hcut)
  exact ⟨String.ext (List.reverse_inj.mp hfront.symm), String.ext (List.reverse_inj.mp hback.symm)⟩

/-- The token in front of the extension is the only one. -/
theorem HasToken.eq {token other : String} (h : HasToken file token) (ho : HasToken file other) :
    other = token := by
  obtain ⟨ht, base, extension, he, rfl⟩ := h
  obtain ⟨ht', base', extension', he', hfile⟩ := ho
  have hfront := (append_dot_inj he' he hfile.symm).1
  exact (append_dot_inj ht' ht hfront).2

/-- A file that is found has the required token in front of its extension. -/
theorem FindsIn.hasToken (hs : s.IsPlain) (h : s.FindsIn t directory base file extension)
    {token : String} (ht : s.token = some token) : HasToken file token := by
  refine ⟨(hs.token token ht).2, base, extension, h.dot hs, ?_⟩
  rw [h.file_eq, lead, ht]

/-- The document for a name is the one that's preferred, whatever files there are, and there is none
for a name with parts that aren't names. The file of a document has no other token behind the base
name, nor in front of its extension if a token is required. -/
theorem lookup_preference (ht : t.IsSound) (hs : s.IsPlain) (name : String) :
    ((∃ c ∈ Path.components (Text.trim (· = '/') name), ∀ part, c ≠ .normal part) →
      s.lookup t (Text.trim (· = '/') name) = none) ∧
    ((∀ c ∈ Path.components (Text.trim (· = '/') name), ∃ part, c = .normal part) →
      ∀ d, s.lookup t (Text.trim (· = '/') name) = some d ↔
        d.name = Text.trim (· = '/') name ∧ d.modified = t.modified? d.path ∧
          s.Prefers t (Text.trim (· = '/') name) d) ∧
    ∀ d, s.lookup t (Text.trim (· = '/') name) = some d →
      ∃ place ∈ s.places (Text.trim (· = '/') name), ∃ file,
        d.path = Path.join place.1 file ∧ t.isFile d.path = true ∧
        (∀ other rest, '.' ∉ other.toList → s.token ≠ some other →
          file ≠ place.2 ++ "." ++ other ++ "." ++ rest) ∧
        ∀ token other, s.token = some token → HasToken file other → other = token := by
  refine ⟨lookup_eq_none, fun hn d => lookup_eq_some_iff ht hs hn d, fun d hd => ?_⟩
  obtain ⟨-, place, hplace, hfind⟩ := exists_of_lookup hd
  have hbase : '/' ∉ place.2.toList := by
    obtain hp | hp := List.mem_append.mp hplace
    · obtain ⟨base, hb, rfl⟩ := Option.map_eq_some_iff.mp (Option.mem_toList.mp hp)
      exact (Path.isName_of_fileName? hb).slash
    · obtain rfl := List.mem_singleton.mp hp
      exact hs.defaultName.1
  obtain ⟨file, hf, hpath⟩ := (findIn?_eq_some_iff ht (hs.slash_lead hbase)).mp hfind
  refine ⟨place, hplace, file, hpath, ?_, fun other rest ho hne => hf.ne_of_token hs ho hne rest,
    fun token other htoken ho => (hf.hasToken hs htoken).eq ho⟩
  exact hpath ▸ hf.isFile

/-- Files with several tokens and extensions, and a name that holds the token itself. -/
def mixedFiles : FileTree :=
  (((FileTree.create {} "pages/person.m.py" "p".toUTF8 0).create "pages/person.m.rb"
    "r".toUTF8 0).create "pages/person.t.js" "t".toUTF8 0).create "pages/person.m/default.m.js"
      "d".toUTF8 0

/-- The documents among these files. -/
def mixedDocuments : DocumentSource where
  root := "pages"
  token := some "m"

/-- Of the files in the directory, only two have the token. -/
theorem findsIn_mixed : mixedDocuments.FindsIn mixedFiles "pages/" "person" "person.m.py" "py" := by
  refine .first (by decide +kernel) ⟨by decide +kernel, by decide, by decide, by decide,
    by decide +kernel, by decide +kernel⟩ fun file extension hc => ?_
  obtain ⟨entry, hx⟩ := FileTree.exists_listed (hc.isName (by decide +kernel)) hc.folder hc.isFile
  have hlisted : ((mixedFiles.list? "pages/").getD []).map (·.1) =
      ["person.m.py", "person.m.rb", "person.t.js", "person.m"] := by decide +kernel
  have hmem : file ∈ ["person.m.py", "person.m.rb", "person.t.js", "person.m"] :=
    hlisted ▸ List.mem_map_of_mem hx
  have hlead : Text.startsWith "person.m." file = true :=
    Text.startsWith_iff.mpr ⟨extension, hc.name⟩
  have hfirst : ∀ file ∈ ["person.m.py", "person.m.rb", "person.t.js", "person.m"],
      Text.startsWith "person.m." file = true → "person.m.py" ≤ file := by decide +kernel
  exact hfirst file hmem hlead

/-- The first extension in order is taken where the default extension has another token, a name that
ends in the token stands for a directory, and a name that leads up for nothing. -/
theorem lookup_preference_mixed : mixedFiles.IsSound ∧ mixedDocuments.IsPlain ∧
    mixedDocuments.lookup mixedFiles "person" =
      some ⟨"person", "pages/person.m.py", "py", some 0⟩ ∧
    (mixedDocuments.lookup mixedFiles "person.m").map (·.path) =
      some "pages/person.m/default.m.js" ∧
    mixedDocuments.lookup mixedFiles "../person" = none := by
  have hsound : mixedFiles.IsSound :=
    (((FileTree.isSound_empty.create _ _ _).create _ _ _).create _ _ _).create _ _ _
  have hplain : mixedDocuments.IsPlain :=
    ⟨by rintro _ ⟨⟩; decide +kernel, by decide +kernel, by decide +kernel⟩
  have hperson : Text.trim (· = '/') "/person/" = "person" := by decide +kernel
  have hup : Text.trim (· = '/') "/../person" = "../person" := by decide +kernel
  obtain ⟨-, hfound, -⟩ := lookup_preference hsound hplain "/person/"
  obtain ⟨hlost, -, -⟩ := lookup_preference hsound hplain "/../person"
  rw [hperson] at hfound
  rw [hup] at hlost
  refine ⟨hsound, hplain, ?_, by decide +kernel, ?_⟩
  · have hnames : Path.components "person" = [.normal "person"] := by decide +kernel
    have hbase : Path.fileName? "person" = some "person" := by decide +kernel
    have hroot : Path.join mixedDocuments.root (Path.parent "person") = "pages/" := by
      decide +kernel
    have hfinds := findsIn_mixed
    rw [← hroot] at hfinds
    rw [hfound (by simp [hnames])]
    exact ⟨rfl, by decide +kernel, .segment hbase hfinds (by decide +kernel)⟩
  · have hparent : .parent ∈ Path.components "../person" := by decide +kernel
    exact hlost ⟨.parent, hparent, fun part => by simp⟩

end DocumentSource

end RequestRouting
