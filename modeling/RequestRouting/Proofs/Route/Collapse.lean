import RequestRouting.Proofs.Route.Clean
import RequestRouting.Proofs.Text.Cut

/-!
# Cleaning what is put together

A URI that is put together from a cleaned one and a name is cleaned where they meet, and behind it.
Cleaning a name keeps it, apart from the slashes around it, exactly if no slashes are doubled
inside.
-/

namespace RequestRouting

variable {c : Char} {s : List Char}

/-- What has no doubled slashes is kept, and what follows is collapsed on its own, but for a slash
between them. -/
theorem collapse_append {slash : Bool} (hs : Spaced '/' (c :: s)) (hc : slash = true → c ≠ '/')
    (t : List Char) :
    collapse slash (c :: s ++ t) =
      c :: s ++ collapse (decide ((c :: s).getLast? = some '/')) t := by
  induction s generalizing c slash with
  | nil =>
    by_cases h : c = '/'
    · subst h
      have hn : slash = false := by simpa using hc
      simp [collapse, hn]
    · simp [collapse, h]
  | cons d s ih =>
    obtain ⟨hd, hrest⟩ := Spaced.cons_iff.mp hs
    have hd' : c = '/' → d ≠ '/' := fun h he => hd h (by rw [he]; rfl)
    rw [List.getLast?_cons_cons, List.cons_append, collapse]
    by_cases h : c = '/'
    · have hn : slash = false := by simpa [h] using hc
      rw [if_pos h, hn, if_neg (by simp), ih hrest fun _ => hd' h, h]
      rfl
    · rw [if_neg h, ih hrest (by simp)]
      rfl

/-- Text without slashes is kept in front of another one. -/
theorem collapse_lead (h : '/' ∉ c :: s) (slash : Bool) (t : List Char) :
    collapse slash (c :: s ++ t) = c :: s ++ collapse false t := by
  have hs : Spaced '/' (c :: s) := by
    rw [← List.append_nil (c :: s)]
    exact Spaced.append_of_not_mem h Spaced.nil
  have hlast : decide ((c :: s).getLast? = some '/') = false :=
    decide_eq_false fun hl => h (List.mem_of_getLast? hl)
  rw [collapse_append hs fun _ hc => h (hc ▸ List.mem_cons_self), hlast]

theorem collapse_slashes {lead : List Char} (h : ∀ c ∈ lead, c = '/') (t : List Char) :
    collapse true (lead ++ t) = collapse true t := by
  induction lead with
  | nil => rfl
  | cons c lead ih =>
    obtain ⟨rfl, hlead⟩ := List.forall_mem_cons.mp h
    rw [List.cons_append, collapse, if_pos rfl, if_pos rfl, ih hlead]

/-- What is collapsed already is collapsed with what follows as if it wasn't. -/
theorem collapse_collapse_append (slash : Bool) (s t : List Char) :
    collapse slash (collapse slash s ++ t) = collapse slash (s ++ t) := by
  induction s generalizing slash with
  | nil => rfl
  | cons c s ih =>
    by_cases hc : c = '/'
    · cases slash <;> simp [collapse, hc, ih]
    · simp [collapse, hc, ih]

/-- Text without slashes is kept. -/
theorem collapse_append_of_not_mem (slash : Bool) (s : List Char) {t : List Char} (ht : '/' ∉ t) :
    collapse slash (s ++ t) = collapse slash s ++ t := by
  induction s generalizing slash with
  | nil =>
    induction t generalizing slash with
    | nil => rfl
    | cons c t ih =>
      rw [List.mem_cons, not_or] at ht
      have hrest : collapse false t = t := ih ht.2 false
      simp only [List.nil_append, collapse, if_neg (Ne.symm ht.1), hrest]
  | cons c s ih =>
    simp only [List.cons_append, collapse, ih]
    split
    · split <;> rfl
    · rfl

/-- Collapsing keeps the last character. -/
theorem getLast?_collapse (c : Char) (s : List Char) :
    (c :: collapse (decide (c = '/')) s).getLast? = (c :: s).getLast? := by
  induction s generalizing c with
  | nil => rfl
  | cons d s ih =>
    rw [List.getLast?_cons_cons, ← ih d, collapse]
    by_cases hd : d = '/'
    · subst hd
      by_cases hc : c = '/'
      · subst hc
        simp
      · simp [hc]
    · simp [hd]

theorem toList_clean (uri : String) : (clean uri).toList = '/' :: collapse true uri.toList := by
  rw [clean, String.toList_ofList]

@[simp] theorem startsWith_clean (uri : String) : Text.startsWith "/" (clean uri) = true :=
  Text.startsWith_iff.mpr
    ⟨.ofList (collapse true uri.toList), String.ext (by simp [toList_clean])⟩

/-- A name that starts with a slash is collapsed like any other text. -/
theorem toList_clean_of_slash {name : String} (h : Text.startsWith "/" name = true) :
    (clean name).toList = collapse false name.toList := by
  obtain ⟨rest, rfl⟩ := Text.startsWith_iff.mp h
  rw [toList_clean, String.toList_append]
  simp [collapse]

theorem endsWith_slash_iff {text : String} :
    Text.endsWith "/" text = true ↔ text.toList.getLast? = some '/' := by
  rw [Text.endsWith_iff, List.getLast?_eq_some_iff]
  constructor
  · rintro ⟨before, rfl⟩
    exact ⟨before.toList, by simp⟩
  · rintro ⟨before, h⟩
    exact ⟨.ofList before, String.ext (by simpa using h)⟩

/-- A cleaned URI is kept in front of a name. -/
theorem toList_clean_append (uri name : String) : (clean (clean uri ++ name)).toList =
    (clean uri).toList ++ collapse (Text.endsWith "/" (clean uri)) name.toList := by
  have hs := spaced_clean uri
  have he : decide ((clean uri).toList.getLast? = some '/') = Text.endsWith "/" (clean uri) := by
    rw [Bool.eq_iff_iff, decide_eq_true_eq, endsWith_slash_iff]
  have hstart := Text.startsWith_append (startsWith_clean uri) name
  rw [toList_clean_of_slash hstart, String.toList_append, ← he]
  rw [toList_clean] at hs ⊢
  exact collapse_append hs (by simp) _

@[simp] theorem clean_clean (uri : String) : clean (clean uri) = clean uri := by
  have h := toList_clean_append uri ""
  rw [String.append_empty] at h
  exact String.ext (by simpa [collapse] using h)

/-- Cleaning what was put together makes up for cleaning a part of it before. -/
theorem clean_clean_append (uri name : String) :
    clean (clean uri ++ name) = clean (uri ++ name) := by
  refine String.ext ?_
  rw [toList_clean, toList_clean, String.toList_append, String.toList_append, toList_clean,
    List.cons_append, collapse, if_pos rfl, if_pos rfl, collapse_collapse_append]

/-- What is trimmed off a cleaned URI is trimmed off the URI before, slashes apart. -/
theorem trimTail_clean {p : Char → Bool} (hp : p '/' = false) (uri : String) :
    Text.trimTail p (clean uri) = clean (Text.trimTail p uri) := by
  obtain ⟨tail, hsplit, htail⟩ := Text.exists_trimTail p uri
  have hslash : '/' ∉ tail.toList := fun h => by
    rw [htail _ h] at hp
    cases hp
  have hclean : (clean uri).toList = (clean (Text.trimTail p uri)).toList ++ tail.toList := by
    rw [toList_clean, toList_clean]
    conv_lhs => rw [hsplit]
    rw [String.toList_append, collapse_append_of_not_mem true _ hslash]
    rfl
  refine String.ext ?_
  rw [Text.trimTail, String.toList_ofList, hclean, Text.Chars.trimTail_append_of_pos htail,
    Text.Chars.trimTail_eq_self]
  intro c hc
  rw [toList_clean, ← decide_eq_true (rfl : '/' = '/'), getLast?_collapse] at hc
  cases hlast : (Text.trimTail p uri).toList.getLast? with
  | none =>
    rw [List.getLast?_eq_none_iff.mp hlast] at hc
    rwa [← Option.some.inj hc]
  | some d =>
    rw [List.getLast?_cons, hlast] at hc
    obtain rfl : d = c := Option.some.inj hc
    rw [Text.trimTail, String.toList_ofList] at hlast
    exact Text.Chars.getLast?_trimTail p hlast

/-- Cleaned texts are put together as they are, unless two slashes meet. -/
theorem clean_append {uri name : String} (hu : clean uri = uri)
    (he : Text.endsWith "/" uri = false) (hn : clean name = name) :
    clean (uri ++ name) = uri ++ name := by
  have hs := startsWith_clean name
  rw [hn] at hs
  have h := toList_clean_append uri name
  rw [hu, he, ← toList_clean_of_slash hs, hn, ← String.toList_append] at h
  exact String.ext h

/-- A cleaned name ends in a slash if the name does, or if it's empty. -/
theorem endsWith_clean {name : String} (h : name ≠ "") :
    Text.endsWith "/" (clean name) = Text.endsWith "/" name := by
  have hn : name.toList ≠ [] := fun he => h (String.toList_eq_nil_iff.mp he)
  obtain ⟨c, s, hc⟩ := List.exists_cons_of_ne_nil hn
  have hl := getLast?_collapse '/' name.toList
  rw [Bool.eq_iff_iff, endsWith_slash_iff, endsWith_slash_iff, toList_clean]
  rw [decide_eq_true rfl] at hl
  rw [hl, hc, List.getLast?_cons_cons]

theorem mem_of_mem_collapse {slash : Bool} (h : c ∈ collapse slash s) : c ∈ s := by
  induction s generalizing slash with
  | nil => cases h
  | cons d s ih =>
    rw [collapse] at h
    split at h
    · rename_i hd
      split at h
      · exact List.mem_cons_of_mem _ (ih h)
      · rcases List.mem_cons.mp h with rfl | h
        · rw [hd]
          exact List.mem_cons_self
        · exact List.mem_cons_of_mem _ (ih h)
    · exact (List.mem_cons.mp h).elim (fun h => h ▸ List.mem_cons_self)
        fun h => List.mem_cons_of_mem _ (ih h)

/-- Cleaning a name only changes the slashes around it exactly if no slashes are doubled inside. -/
theorem trim_clean_iff (name : String) :
    Text.trim (· = '/') (clean name) = Text.trim (· = '/') name ↔
      Spaced '/' (Text.trim (· = '/') name).toList := by
  constructor
  · intro h
    obtain ⟨lead, tail, hsplit, -⟩ := Text.Chars.exists_trim (· = '/') (clean name).toList
    have hs := spaced_clean name
    rw [← h, Text.trim, String.toList_ofList]
    rw [hsplit] at hs
    exact hs.left.right
  · intro h
    obtain ⟨lead, tail, hsplit, hlead, htail⟩ := Text.Chars.exists_trim (· = '/') name.toList
    rw [Text.trim, String.toList_ofList] at h
    have hslash {l : List Char} (hl : ∀ c ∈ l, decide (c = '/') = true) : ∀ c ∈ l, c = '/' :=
      fun c hc => of_decide_eq_true (hl c hc)
    have hhead : (Text.Chars.trim (· = '/') name.toList).head? ≠ some '/' := fun he => by
      simpa using Text.Chars.head?_trim _ he
    rw [Text.trim, Text.trim, toList_clean]
    refine congrArg String.ofList ?_
    generalize hm : Text.Chars.trim (· = '/') name.toList = middle at hsplit h hhead ⊢
    have hself : Text.Chars.trim (· = '/') middle = middle := by
      rw [← hm, Text.Chars.trim_trim]
    rw [hsplit, List.append_assoc, collapse_slashes (hslash hlead)]
    cases middle with
    | nil =>
      have hc := collapse_slashes (hslash htail) []
      rw [List.append_nil] at hc
      rw [List.nil_append, hc]
      rfl
    | cons c s =>
      have hc : true = true → c ≠ '/' := fun _ he => hhead (by rw [he]; rfl)
      rw [collapse_append h hc]
      have hlead : ∀ d ∈ ['/'], decide (d = '/') = true := by simp
      exact (Text.Chars.trim_append_append hlead fun d hd =>
        htail d (mem_of_mem_collapse hd)).trans hself

end RequestRouting
