import RequestRouting.Documents.Resource
import RequestRouting.Proofs.Files.Answers
import RequestRouting.Proofs.Http.Date

/-!
# Copies that are fresh

A client that has a copy of a file sends the date the copy is from, and isn't sent the file again
unless it was modified since. Files are modified within seconds, while dates are whole seconds, so
the date that's sent with a file is that of the second it was modified in. A copy from that date or
a later one is fresh, and so is one from the second before if the file was modified at the very
beginning of its own.
-/

namespace RequestRouting.StaticFiles

open Documents (isUnmodified)

variable {s : StaticFiles} {t : FileTree} {now : Time} {req : Request} {path value : String}
  {content : ByteArray} {modified : Time} {date : Date}

theorem isUnmodified_iff :
    isUnmodified date modified = true ↔ modified < (date.seconds + 1) * Time.second := by
  have hpos : 0 < Time.second := by decide
  rw [isUnmodified, decide_eq_true_iff, ← Nat.lt_succ_iff, Nat.div_lt_iff_lt_mul hpos]

/-- A copy is fresh if the file wasn't modified after it, as far as whole seconds tell, or just when
the next second began. -/
theorem isFresh_iff (hv : req.headers.get? .ifModifiedSince = some value)
    (hd : Date.parse? value = some date) : isFresh req (some modified) = true ↔
      isUnmodified date modified = true ∨ modified = (date.seconds + 1) * Time.second := by
  rw [isUnmodified_iff, ← Nat.le_iff_lt_or_eq]
  simp only [isFresh, hv, Option.bind_some, hd, decide_eq_true_iff]

theorem get?_lastModified_fileResponse : (s.fileResponse now path content modified).headers.get?
    .lastModified = some (Time.text modified) := by
  have hdate {res : Response} : (res.header .date (Time.text now)).headers.get? .lastModified =
      res.headers.get? .lastModified := Keyed.get?_insert_of_ne _ (by decide) _
  have htype {res : Response} : (res.header .contentType MediaType.octetStream).headers.get?
      .lastModified = res.headers.get? .lastModified := Keyed.get?_insert_of_ne _ (by decide) _
  unfold fileResponse
  dsimp only
  rw [hdate]
  split
  · exact Keyed.get?_insert_self _ _ _
  · rw [htype]
    exact Keyed.get?_insert_self _ _ _

theorem status_fileResponse : (s.fileResponse now path content modified).status = .ok := by
  unfold fileResponse
  split <;> rfl

/-- A request for a file is answered with the file and its date, unless there's a fresh copy. -/
theorem exists_respond_file (s : StaticFiles) (now : Time) (req : Request) (path : String)
    (content : ByteArray) (modified : Time) :
    ∃ res, s.respond now req (.file path content modified) = some res ∧
    (isFresh req (some modified) = true → res.status = .notModified) ∧
    (isFresh req (some modified) = false →
      res.status = .ok ∧ res.headers.get? .lastModified = some (Time.text modified)) := by
  have hstatus : (s.fileResponse now path content modified).status = .ok := status_fileResponse
  refine ⟨_, rfl, fun h => ?_, fun h => ?_⟩
  · rw [if_pos h]
    rfl
  · rw [h, if_neg Bool.false_ne_true]
    split
    · exact ⟨hstatus, get?_lastModified_fileResponse⟩
    · exact ⟨hstatus, get?_lastModified_fileResponse⟩

/-- The date that's sent with a file: the second it was modified in. -/
def sentDate (modified : Time) : Date := Date.ofSeconds (modified / Time.second)

/-- A client with a copy from a date isn't sent a file again if the file wasn't modified after that
date, as far as the date that's sent with it tells, nor if it was modified just when the second
after that date began. This is what documents go by as well, but for that one point in time. -/
theorem notModified_iff (hm : req.method = .get ∨ req.method = .head)
    (hf : s.found t req.uri.path = .file path content modified)
    (hv : req.headers.get? .ifModifiedSince = some value) (hd : Date.parse? value = some date) :
    ∃ res, s.answer? t now req = some res ∧
      (sentDate modified).seconds = modified / Time.second ∧
      (isUnmodified date modified = true ↔ (sentDate modified).seconds ≤ date.seconds) ∧
      (res.status = .notModified ↔ (sentDate modified).seconds ≤ date.seconds ∨
        modified = (date.seconds + 1) * Time.second) ∧
      (res.status ≠ .notModified → res.status = .ok ∧
        res.headers.get? .lastModified = some (sentDate modified).text) ∧
      ((sentDate modified).seconds < Date.limit →
        Date.parse? (sentDate modified).text = some (sentDate modified)) := by
  obtain ⟨res, hres, hfresh, hstale⟩ := exists_respond_file s now req path content modified
  have hseconds : (sentDate modified).seconds = modified / Time.second := Date.seconds_ofSeconds _
  have hexact : isUnmodified date modified = true ↔
      (sentDate modified).seconds ≤ date.seconds := by
    rw [hseconds, isUnmodified, decide_eq_true_iff]
  refine ⟨res, by rw [answer?_eq hm, hf, hres], hseconds, hexact, ?_, fun h => ?_,
    fun h => Date.parse?_text (hseconds ▸ h)⟩
  · rw [← hexact, ← isFresh_iff hv hd]
    refine ⟨fun h => ?_, hfresh⟩
    by_contra hn
    rw [(hstale (Bool.eq_false_iff.mpr hn)).1] at h
    cases h
  · exact hstale (Bool.eq_false_iff.mpr fun hf => h (hfresh hf))

/-- A file that was modified just when a second began, and one that was a moment later. -/
def modifiedFiles : FileTree :=
  (FileTree.create {} "pub/a.txt" "a".toUTF8 (1000000001 * Time.second)).create "pub/b.txt"
    "b".toUTF8 (1000000001 * Time.second + 1)

/-- The files in a folder. -/
def modifiedStatic : StaticFiles where
  root := "pub"

/-- A request by a client with a copy from the second before. -/
def copyRequest (path : String) : Request where
  uri := Uri.parse path
  headers := Keyed.insert {} .ifModifiedSince "Sun, 09 Sep 2001 01:46:40 GMT"

theorem found_modifiedFiles :
    modifiedStatic.found modifiedFiles (copyRequest "/a.txt").uri.path =
      .file "pub/a.txt" "a".toUTF8 (1000000001 * Time.second) ∧
    modifiedStatic.found modifiedFiles (copyRequest "/b.txt").uri.path =
      .file "pub/b.txt" "b".toUTF8 (1000000001 * Time.second + 1) :=
  ⟨found_file (by decide +kernel) (by decide +kernel),
    found_file (by decide +kernel) (by decide +kernel)⟩

theorem parse?_copyDate :
    Date.parse? "Sun, 09 Sep 2001 01:46:40 GMT" = some (Date.ofSeconds 1000000000) := by
  decide +kernel

theorem notModified_iff_next_second :
    (∃ res, modifiedStatic.answer? modifiedFiles 0 (copyRequest "/a.txt") = some res ∧
      res.status = .notModified) ∧
    ∃ res, modifiedStatic.answer? modifiedFiles 0 (copyRequest "/b.txt") = some res ∧
      res.status = .ok ∧
      res.headers.get? .lastModified = some (Date.ofSeconds 1000000001).text := by
  obtain ⟨ha, hb⟩ := found_modifiedFiles
  obtain ⟨res, hres, -, -, hstatus, -⟩ := notModified_iff (Or.inl rfl) ha rfl parse?_copyDate
  obtain ⟨res', hres', -, -, hstatus', hok, -⟩ :=
    notModified_iff (Or.inl rfl) hb rfl parse?_copyDate
  have hn : res'.status ≠ .notModified := by
    rw [ne_eq, hstatus']
    decide
  exact ⟨⟨res, hres, hstatus.mpr (by decide)⟩, res', hres', hok hn⟩

/-- Static files and documents don't go by the same rule. -/
theorem not_notModified_iff_isUnmodified : ¬∀ (s : StaticFiles) (t : FileTree) (now : Time)
    (req : Request) (path value : String) (content : ByteArray) (modified : Time) (date : Date),
    req.method = .get ∨ req.method = .head →
    s.found t req.uri.path = .file path content modified →
    req.headers.get? .ifModifiedSince = some value → Date.parse? value = some date →
    ∃ res, s.answer? t now req = some res ∧
      (res.status = .notModified ↔ isUnmodified date modified = true) := by
  intro h
  obtain ⟨res, hres, hiff⟩ := h modifiedStatic modifiedFiles 0 (copyRequest "/a.txt") _ _ _ _ _
    (Or.inl rfl) found_modifiedFiles.1 rfl parse?_copyDate
  have hstatus : (modifiedStatic.answer? modifiedFiles 0 (copyRequest "/a.txt")).map (·.status) =
      some .notModified := by decide +kernel
  rw [hres] at hstatus
  have hunmodified := hiff.mp (Option.some.inj hstatus)
  revert hunmodified
  decide

end RequestRouting.StaticFiles
