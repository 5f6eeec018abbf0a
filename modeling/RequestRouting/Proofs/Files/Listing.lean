import Mathlib.Tactic.SplitIfs
import RequestRouting.Proofs.Files.Answers
import RequestRouting.Proofs.Routing.Substitution

/-!
# What a listing leads to

A page is read as characters and tags, and the values of a tag as what's in quotes. References to
characters are resolved after that, so they never begin or end a tag. Read like this, a listing is
made of the same tags whatever its entries are called, and has a link with the name of every entry.
-/

namespace RequestRouting.Listing

/-- Resolves the references to characters. -/
def unescape : List Char → List Char
  | '&' :: 'a' :: 'm' :: 'p' :: ';' :: s => '&' :: unescape s
  | '&' :: 'l' :: 't' :: ';' :: s => '<' :: unescape s
  | '&' :: 'g' :: 't' :: ';' :: s => '>' :: unescape s
  | '&' :: 'q' :: 'u' :: 'o' :: 't' :: ';' :: s => '\x22' :: unescape s
  | c :: s => c :: unescape s
  | [] => []

/-- A part of a page: a character, or a tag with the values in it, which are left blank in the tag
itself. -/
inductive Markup where
  | char (c : Char)
  | tag (blank : List Char) (values : List (List Char))

/-- Where a reader is: between tags, in a tag, or in a value of a tag. -/
inductive Place where
  | text
  | tag (blank : List Char) (values : List (List Char))
  | value (blank : List Char) (values : List (List Char)) (part : List Char)

/-- Reads on from a place. -/
def read : Place → List Char → List Markup
  | _, [] => []
  | .text, c :: s => if c = '<' then read (.tag [] []) s else .char c :: read .text s
  | .tag blank values, c :: s =>
    if c = '>' then .tag blank values :: read .text s
    else if c = '\x22' then read (.value blank values []) s
    else read (.tag (blank ++ [c]) values) s
  | .value blank values part, c :: s =>
    if c = '\x22' then read (.tag (blank ++ ['\x22', '\x22']) (values ++ [part])) s
    else read (.value blank values (part ++ [c])) s

/-- The tags, their values left blank. -/
def tags : List Markup → List String
  | [] => []
  | .char _ :: rest => tags rest
  | .tag blank _ :: rest => .ofList blank :: tags rest

/-- The characters up to the next tag. -/
def shown : List Markup → List Char
  | .char c :: rest => c :: shown rest
  | _ => []

/-- The target of the link that a tag begins. -/
def target? (blank : List Char) (values : List (List Char)) : Option String :=
  if blank = "a href=\"\"".toList then values.head?.map fun value => .ofList (unescape value)
  else none

/-- The links with their targets and what's shown for them. -/
def links : List Markup → List (String × String)
  | [] => []
  | .char _ :: rest => links rest
  | .tag blank values :: rest =>
    match target? blank values with
    | some target => (target, .ofList (unescape (shown rest))) :: links rest
    | none => links rest

/-- What's read from a page. -/
def markup (page : String) : List Markup := read .text page.toList

section Escaping

theorem unescape_escape (c : Char) (s : List Char) :
    unescape ((escape c).toList ++ s) = c :: unescape s := by
  unfold escape
  split_ifs with hamp hlt hgt hquote
  · rw [hamp]
    rfl
  · rw [hlt]
    rfl
  · rw [hgt]
    rfl
  · rw [hquote]
    rfl
  · rw [Char.toString_eq_singleton, String.toList_singleton, List.singleton_append]
    simp [unescape, hamp]

theorem not_mem_escape (c : Char) : '<' ∉ (escape c).toList ∧ '\x22' ∉ (escape c).toList := by
  unfold escape
  split_ifs with hamp hlt hgt hquote
  · decide
  · decide
  · decide
  · decide
  · rw [Char.toString_eq_singleton, String.toList_singleton]
    exact ⟨by simpa using Ne.symm hlt, by simpa using Ne.symm hquote⟩

theorem toList_escaped (text : String) :
    (escaped text).toList = text.toList.flatMap fun c => (escape c).toList := by
  rw [escaped, String.toList_join, List.flatMap_map]

/-- What was escaped is read again. -/
theorem unescape_escaped (text : String) : unescape (escaped text).toList = text.toList := by
  rw [toList_escaped]
  induction text.toList with
  | nil => rfl
  | cons c s ih => rw [List.flatMap_cons, unescape_escape, ih]

/-- A text that was escaped neither begins a tag nor ends a value. -/
theorem not_mem_escaped (text : String) :
    '<' ∉ (escaped text).toList ∧ '\x22' ∉ (escaped text).toList := by
  rw [toList_escaped]
  refine ⟨fun h => ?_, fun h => ?_⟩
  · obtain ⟨c, -, hc⟩ := List.mem_flatMap.mp h
    exact (not_mem_escape c).1 hc
  · obtain ⟨c, -, hc⟩ := List.mem_flatMap.mp h
    exact (not_mem_escape c).2 hc

end Escaping

section Reading

/-- Whether a part of a page is read by itself. -/
def Reads (part : String) (markup : List Markup) : Prop :=
  ∀ rest, read .text (part.toList ++ rest) = markup ++ read .text rest

theorem Reads.append {a b : String} {m n : List Markup} (ha : Reads a m) (hb : Reads b n) :
    Reads (a ++ b) (m ++ n) := by
  intro rest
  rw [String.toList_append, List.append_assoc, ha, hb, List.append_assoc]

theorem Reads.markup_eq {part : String} {m : List Markup} (h : Reads part m) : markup part = m := by
  have hread := h []
  rwa [List.append_nil, read, List.append_nil] at hread

/-- A text goes on to the next tag. -/
theorem read_text_append {plain : List Char} (h : '<' ∉ plain) (rest : List Char) :
    read .text (plain ++ rest) = plain.map .char ++ read .text rest := by
  induction plain with
  | nil => rfl
  | cons c s ih =>
    rw [List.mem_cons, not_or] at h
    rw [List.cons_append, read, if_neg (Ne.symm h.1), ih h.2]
    rfl

/-- A value goes on to the next quote. -/
theorem read_value_append {blank part value : List Char} {values : List (List Char)}
    (h : '\x22' ∉ value) (rest : List Char) : read (.value blank values part) (value ++ rest) =
      read (.value blank values (part ++ value)) rest := by
  induction value generalizing part with
  | nil => rw [List.append_nil, List.nil_append]
  | cons c s ih =>
    rw [List.mem_cons, not_or] at h
    rw [List.cons_append, read, if_neg (Ne.symm h.1), ih h.2, List.append_assoc,
      List.singleton_append]

theorem reads_escaped (text : String) : Reads (escaped text) ((escaped text).toList.map .char) :=
  read_text_append (not_mem_escaped text).1

/-- What's read from a link. -/
def linkMarkup (reference label : String) : List Markup :=
  [.tag "li".toList [],
    .tag "a href=\"\"".toList [(escaped reference).toList ++ (escaped label).toList]] ++
    (escaped label).toList.map .char ++ [.tag "/a".toList [], .tag "/li".toList [], .char '\n']

theorem reads_link (reference label : String) :
    Reads (link reference label) (linkMarkup reference label) := by
  have hopen : Reads ("<li><a href=\"" ++ escaped reference ++ escaped label ++ "\">")
      [.tag "li".toList [],
        .tag "a href=\"\"".toList [(escaped reference).toList ++ (escaped label).toList]] := by
    intro rest
    have hvalue : '\x22' ∉ (escaped reference).toList ++ (escaped label).toList :=
      List.not_mem_append (not_mem_escaped reference).2 (not_mem_escaped label).2
    -- The value starts and ends at quotes of the link, as there are none in it.
    have hlead (rest : List Char) : read .text ("<li><a href=\"".toList ++ rest) =
        .tag "li".toList [] :: read (.value "a href=".toList [] []) rest := rfl
    have htail (value rest : List Char) :
        read (.value "a href=".toList [] value) ("\">".toList ++ rest) =
          .tag "a href=\"\"".toList [value] :: read .text rest := rfl
    rw [String.toList_append, String.toList_append, String.toList_append, List.append_assoc,
      List.append_assoc, List.append_assoc, hlead, ← List.append_assoc _ _ ("\">".toList ++ rest),
      read_value_append hvalue, List.nil_append, htail]
    rfl
  have hclose : Reads "</a></li>\n" [.tag "/a".toList [], .tag "/li".toList [], .char '\n'] :=
    fun rest => rfl
  exact (hopen.append (reads_escaped label)).append hclose

theorem reads_links (reference : String) (labels : List String) :
    Reads (String.join (labels.map (link reference))) (labels.flatMap (linkMarkup reference)) := by
  induction labels with
  | nil => exact fun rest => rfl
  | cons label labels ih =>
    rw [List.map_cons, String.join_cons, List.flatMap_cons]
    exact (reads_link reference label).append ih

/-- What's read before the links. -/
def opening (reference : String) : List Markup :=
  let title := (escaped reference).toList.map Markup.char
  [.tag "!DOCTYPE html".toList [], .char '\n', .tag "html".toList [], .tag "head".toList [],
    .tag "title".toList []] ++ title ++
  [.tag "/title".toList [], .tag "/head".toList [], .tag "body".toList [], .tag "h1".toList []] ++
    title ++ [.tag "/h1".toList [], .tag "ul".toList [], .char '\n']

/-- What's read after the links. -/
def closing : List Markup :=
  [.tag "/ul".toList [], .tag "/body".toList [], .tag "/html".toList [], .char '\n']

theorem markup_page (reference : String) (labels : List String) :
    markup (page reference labels) =
      opening reference ++ labels.flatMap (linkMarkup reference) ++ closing := by
  have htitle : Reads "<!DOCTYPE html>\n<html><head><title>" [.tag "!DOCTYPE html".toList [],
      .char '\n', .tag "html".toList [], .tag "head".toList [], .tag "title".toList []] :=
    fun rest => rfl
  have hbody : Reads "</title></head><body><h1>" [.tag "/title".toList [],
      .tag "/head".toList [], .tag "body".toList [], .tag "h1".toList []] := fun rest => rfl
  have hlist : Reads "</h1><ul>\n" [.tag "/h1".toList [], .tag "ul".toList [], .char '\n'] :=
    fun rest => rfl
  have hend : Reads "</ul></body></html>\n" closing := fun rest => rfl
  have htext := reads_escaped reference
  exact (((((htitle.append htext).append hbody).append htext).append hlist).append
    (reads_links reference labels) |>.append hend).markup_eq

end Reading

section Links

@[simp] theorem tags_append (m n : List Markup) : tags (m ++ n) = tags m ++ tags n := by
  induction m with
  | nil => rfl
  | cons part m ih =>
    cases part with
    | char c => exact ih
    | tag blank values => exact congrArg (String.ofList blank :: ·) ih

@[simp] theorem tags_chars (s : List Char) : tags (s.map .char) = [] := by
  induction s with
  | nil => rfl
  | cons c s ih => exact ih

@[simp] theorem links_chars (s : List Char) (rest : List Markup) :
    links (s.map .char ++ rest) = links rest := by
  induction s with
  | nil => rfl
  | cons c s ih => exact ih

theorem shown_chars (s blank : List Char) (values : List (List Char)) (rest : List Markup) :
    shown (s.map .char ++ .tag blank values :: rest) = s := by
  induction s with
  | nil => rfl
  | cons c s ih => exact congrArg (c :: ·) ih

/-- There's one link in a link, to the entry it shows. -/
theorem links_linkMarkup (reference label : String) (rest : List Markup) :
    links (linkMarkup reference label ++ rest) = (reference ++ label, label) :: links rest := by
  have hunescape : unescape ((escaped reference).toList ++ (escaped label).toList) =
      (reference ++ label).toList := by
    rw [← unescape_escaped (reference ++ label), toList_escaped (reference ++ label),
      String.toList_append, List.flatMap_append, ← toList_escaped, ← toList_escaped]
  have hlinks (tail : List Markup) : links (.tag "li".toList [] ::
      .tag "a href=\"\"".toList [(escaped reference).toList ++ (escaped label).toList] :: tail) =
        (.ofList (unescape ((escaped reference).toList ++ (escaped label).toList)),
          .ofList (unescape (shown tail))) :: links tail := rfl
  simp only [linkMarkup, List.append_assoc, List.cons_append, List.nil_append]
  rw [hlinks, shown_chars, links_chars, unescape_escaped, hunescape, String.ofList_toList,
    String.ofList_toList]
  rfl

theorem links_flatMap (reference : String) (labels : List String) (rest : List Markup) :
    links (labels.flatMap (linkMarkup reference) ++ rest) =
      labels.map (fun label => (reference ++ label, label)) ++ links rest := by
  induction labels with
  | nil => rfl
  | cons label labels ih =>
    rw [List.flatMap_cons, List.append_assoc, links_linkMarkup, ih]
    rfl

theorem links_markup_page (reference : String) (labels : List String) :
    links (markup (page reference labels)) =
      labels.map fun label => (reference ++ label, label) := by
  have hopening (rest : List Markup) : links (opening reference ++ rest) = links rest := by
    simp only [opening, List.append_assoc, List.cons_append, List.nil_append]
    simp only [links, target?, links_chars]
    rfl
  have hclosing : links closing = [] := rfl
  rw [markup_page, List.append_assoc, hopening, links_flatMap, hclosing, List.append_nil]

theorem tags_markup_page (reference : String) (labels : List String) :
    tags (markup (page reference labels)) =
      ["!DOCTYPE html", "html", "head", "title", "/title", "/head", "body", "h1", "/h1", "ul"] ++
        labels.flatMap (fun _ => ["li", "a href=\"\"", "/a", "/li"]) ++
        ["/ul", "/body", "/html"] := by
  have hlink (label : String) :
      tags (linkMarkup reference label) = ["li", "a href=\"\"", "/a", "/li"] := by
    simp only [linkMarkup, tags_append, tags_chars]
    rfl
  have hopening : tags (opening reference) = ["!DOCTYPE html", "html", "head", "title", "/title",
      "/head", "body", "h1", "/h1", "ul"] := by
    simp only [opening, tags_append, tags_chars]
    rfl
  have hlinks : tags (labels.flatMap (linkMarkup reference)) =
      labels.flatMap fun _ => ["li", "a href=\"\"", "/a", "/li"] := by
    induction labels with
    | nil => rfl
    | cons label labels ih => rw [List.flatMap_cons, List.flatMap_cons, tags_append, hlink, ih]
  rw [markup_page, tags_append, tags_append, hopening, hlinks]
  rfl

end Links

section Order

/-- The entries are listed in order. -/
theorem labels_perm (entries : List (String × FileTree.Entry)) :
    (FileTree.labels entries).Perm (entries.map fun (name, entry) => entry.label name) :=
  List.mergeSort_perm _ _

theorem pairwise_labels (entries : List (String × FileTree.Entry)) :
    (FileTree.labels entries).Pairwise (· ≤ ·) := by
  refine (List.pairwise_mergeSort ?_ ?_ _).imp fun h => of_decide_eq_true h
  · intro a b c hab hbc
    exact decide_eq_true (String.le_trans (of_decide_eq_true hab) (of_decide_eq_true hbc))
  · intro a b
    simpa using String.le_total a b

end Order

section Targets

/-- A target that wasn't encoded leads to its own text unless it has a query or escapes. -/
theorem parse_eq_self_iff (target : String) :
    Uri.parse target = ⟨target, none⟩ ↔ '?' ∉ target.toList ∧ ¬Uri.HasEscape target := by
  rw [← Uri.path_parse_eq_iff]
  refine ⟨fun h => by rw [h], fun h => ?_⟩
  have hquery := ((Uri.path_parse_eq_iff target).mp h).1
  rw [Uri.parse_of_not_mem hquery] at h ⊢
  exact congrArg (Uri.mk · none) h

/-- The listing of a folder is made of one link for each of its entries in the order of their names,
and of tags that don't depend on any name. A link leads to its entry if the target, which is the
reference with the name, has no query and no escapes, as nothing is encoded in it. Requests for the
folder are answered with that listing. -/
theorem links_lead (reference : String) (entries : List (String × FileTree.Entry)) :
    (FileTree.labels entries).Perm (entries.map fun (name, entry) => entry.label name) ∧
    (FileTree.labels entries).Pairwise (· ≤ ·) ∧
    links (markup (page reference (FileTree.labels entries))) =
      (FileTree.labels entries).map (fun label => (reference ++ label, label)) ∧
    tags (markup (page reference (FileTree.labels entries))) =
      ["!DOCTYPE html", "html", "head", "title", "/title", "/head", "body", "h1", "/h1", "ul"] ++
        (FileTree.labels entries).flatMap (fun _ => ["li", "a href=\"\"", "/a", "/li"]) ++
        ["/ul", "/body", "/html"] ∧
    (∀ link ∈ links (markup (page reference (FileTree.labels entries))),
      (Uri.parse link.1 = ⟨reference ++ link.2, none⟩ ↔
        '?' ∉ (reference ++ link.2).toList ∧ ¬Uri.HasEscape (reference ++ link.2))) ∧
    ∀ (s : StaticFiles) (t : FileTree) (now : Time) (req : Request),
      req.method = .get ∨ req.method = .head → s.found t req.uri.path = .listing entries →
      req.reference = reference → ∃ res, s.answer? t now req = some res ∧
        res.body = (page reference (FileTree.labels entries)).toUTF8 := by
  refine ⟨labels_perm entries, pairwise_labels entries, links_markup_page _ _,
    tags_markup_page _ _, fun link hlink => ?_, fun s t now req hm hf hreference => ?_⟩
  · rw [links_markup_page] at hlink
    obtain ⟨label, -, rfl⟩ := List.mem_map.mp hlink
    exact parse_eq_self_iff _
  · subst hreference
    exact ⟨_, by rw [StaticFiles.answer?_eq hm, hf]; rfl, rfl⟩

/-- A folder with names that look like markup, and with a folder. -/
def markedFiles : FileTree :=
  (FileTree.create {} "pub/\x22>&amp;.txt" "a".toUTF8 0).create "pub/<i>/b.txt" "b".toUTF8 0

/-- The folder is listed. -/
def markedStatic : StaticFiles where
  root := "pub"
  listing := true

theorem links_lead_marked : ∃ res page,
    markedStatic.answer? markedFiles 0 { uri := { path := "/" } } = some res ∧
    res.body = page.toUTF8 ∧
    links (markup page) = [("/\x22>&amp;.txt", "\x22>&amp;.txt"), ("/<i>/", "<i>/")] ∧
    Uri.parse "/\x22>&amp;.txt" = ⟨"/\x22>&amp;.txt", none⟩ ∧
    Uri.parse "/<i>/" = ⟨"/<i>/", none⟩ := by
  have hr : markedStatic.resolve? "/" = some "pub/" := by decide +kernel
  have hfound : markedStatic.found markedFiles "/" =
      .listing [("\x22>&amp;.txt", .file "a".toUTF8 0), ("<i>", .folder)] :=
    StaticFiles.found_listing hr (by decide +kernel) (by decide) (by decide +kernel) rfl
      (by decide +kernel)
  have hlabels : FileTree.labels [("\x22>&amp;.txt", .file "a".toUTF8 0), ("<i>", .folder)] =
      ["\x22>&amp;.txt", "<i>/"] := List.mergeSort_of_pairwise (by decide +kernel)
  obtain ⟨-, -, hlinks, -, hlead, hserved⟩ :=
    links_lead "/" [("\x22>&amp;.txt", .file "a".toUTF8 0), ("<i>", .folder)]
  obtain ⟨res, hres, hbody⟩ := hserved markedStatic markedFiles 0 { uri := { path := "/" } }
    (Or.inl rfl) hfound rfl
  rw [hlabels] at hlinks
  simp only [hlabels, hlinks] at hlead
  exact ⟨res, _, hres, hbody, by rw [hlabels]; exact hlinks,
    (hlead ("/\x22>&amp;.txt", "\x22>&amp;.txt") (by simp)).mpr (by decide +kernel),
    (hlead ("/<i>/", "<i>/") (by simp)).mpr (by decide +kernel)⟩

/-- A name with a question mark is read as a path with a query. -/
theorem not_links_lead_always : ¬∀ (reference : String) (entries : List (String × FileTree.Entry)),
    Text.endsWith "/" reference = true →
    ∀ link ∈ links (markup (page reference (FileTree.labels entries))),
      Uri.parse link.1 = ⟨reference ++ link.2, none⟩ := by
  intro h
  have hlabels : FileTree.labels [("a?b", .file "x".toUTF8 0)] = ["a?b"] := by decide +kernel
  have hlead := h "/" [("a?b", .file "x".toUTF8 0)] (by decide) ("/a?b", "a?b")
  rw [links_markup_page, hlabels] at hlead
  have hquery := hlead (by simp)
  revert hquery
  decide +kernel

end Targets

end RequestRouting.Listing
