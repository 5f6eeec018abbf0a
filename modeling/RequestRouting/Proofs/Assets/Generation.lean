import Mathlib.Data.List.Induction
import RequestRouting.Proofs.Assets.Artifacts
import RequestRouting.Serving.Run

/-!
# When artifacts are generated

Requests ask for artifacts, and files are changed by others in between. Of the checks that were made
of an artifact only the last one is kept, but as time goes on, that makes no difference: an artifact
is checked unless any check of it was made within its validity. Only what is found to be missing, or
older than one of its sources, is generated, and no other file is touched by that.
-/

namespace RequestRouting.Assets

open Path (IsName destination)

/-- What happens to assets. -/
inductive Event where
  | request (now : Time) (path : String)
  /-- The files are changed by others. -/
  | change (files : FileTree)

/-- When a request is made. -/
def Event.time? : Event → Option Time
  | request now _ => some now
  | change _ => none

variable (a : Assets)

/-- The files and the times artifacts were checked at, after something happened. -/
def step (s : FileTree × Checks) : Event → FileTree × Checks
  | .request now path => a.refresh s.1 now s.2 path
  | .change files => (files, s.2)

/-- The files and the times artifacts were checked at, if nothing was checked before. -/
def after (t : FileTree) (events : List Event) : FileTree × Checks := events.foldl a.step (t, {})

/-- The files, and all checks that were ever made, the last one first. -/
structure History where
  files : FileTree
  made : List (List String × Time) := []

/-- Whether an artifact was checked within the validity. -/
def History.isRecent (h : History) (name : List String) (now : Time) : Bool :=
  h.made.any fun check => check.1 = name && Time.isWithin check.2 a.validity now

/-- Checks the artifact that a request asks for unless it was checked within the validity. -/
def History.step (h : History) : Event → History
  | .request now path =>
    match a.plan? h.files path with
    | none => h
    | some plan =>
      if h.isRecent a plan.name now then h
      else {
        files := if isStale h.files plan then a.generate h.files now plan else h.files
        made := (plan.name, now) :: h.made }
  | .change files => { h with files }

/-- All that happened. -/
def history (t : FileTree) (events : List Event) : History :=
  events.foldl (History.step a) { files := t }

variable {a} {t : FileTree} {now now' : Time} {s : FileTree × Checks} {h : History}
  {name name' : List String} {events : List Event} {plan : Plan} {path : String}

/-- Of several checks, the last one tells whether any was late enough. -/
theorem any_eq_any_find? {made : List (List String × Time)}
    (hm : made.Pairwise fun later earlier => earlier.2 ≤ later.2) {p : Time → Bool}
    (hp : ∀ earlier later, earlier ≤ later → p earlier = true → p later = true)
    (name : List String) : (made.any fun check => check.1 = name && p check.2) =
      ((made.find? (·.1 = name)).map (·.2)).any p := by
  induction made with
  | nil => rfl
  | cons check made ih =>
    obtain ⟨hle, hm⟩ := List.pairwise_cons.mp hm
    by_cases hc : check.1 = name
    · cases hlast : p check.2 with
      | true => simp [hc, hlast]
      | false =>
        have hnone : ∀ earlier ∈ made, p earlier.2 = false := by
          intro earlier hmem
          rw [Bool.eq_false_iff]
          intro he
          simp [hp _ _ (hle earlier hmem) he] at hlast
        simp +contextual [hc, hlast, hnone]
    · simp [hc, ih hm]

/-- A later point in time is within a time span if an earlier one is. -/
theorem isWithin_of_le {earlier later : Time} (h : earlier ≤ later) {span : Duration}
    (hw : Time.isWithin earlier span now = true) : Time.isWithin later span now = true := by
  simp only [Time.isWithin, decide_eq_true_eq] at hw ⊢
  exact Nat.lt_of_le_of_lt (Nat.sub_le_sub_left h now) hw

/-- Whether an artifact can have a name. -/
def IsKey (name : List String) : Prop := name ≠ [] ∧ ∀ part ∈ name, '/' ∉ part.toList

theorem join_inj (h : IsKey name) (h' : IsKey name')
    (he : Text.join "/" name = Text.join "/" name') : name = name' := by
  rw [← Text.pieces_join h.1 h.2, he, Text.pieces_join h'.1 h'.2]

theorem isKey_of_plan? (h : a.plan? t path = some plan) : IsKey plan.name := by
  obtain ⟨root, base, folder, -, -, hn, hlast, -⟩ := exists_of_plan? h
  refine ⟨?_, fun part hm => (hn part hm).slash⟩
  rintro he
  simp [he] at hlast

/-- Whether what is kept tells the same as everything that happened. -/
structure Agrees (now : Time) (s : FileTree × Checks) (h : History) : Prop where
  files : s.1 = h.files
  ordered : h.made.Pairwise fun later earlier => earlier.2 ≤ later.2
  past : ∀ check ∈ h.made, check.2 ≤ now
  last : ∀ name, IsKey name →
    s.2.get? (Text.join "/" name) = (h.made.find? (·.1 = name)).map (·.2)

theorem Agrees.later (hs : Agrees now s h) (hle : now ≤ now') : Agrees now' s h :=
  { hs with past := fun check hc => Nat.le_trans (hs.past check hc) hle }

variable (a) in
theorem Agrees.isRecent_eq (hs : Agrees now s h) (hk : IsKey name) (now' : Time) :
    h.isRecent a name now' =
      (s.2.get? (Text.join "/" name)).any (Time.isWithin · a.validity now') := by
  rw [hs.last name hk]
  exact any_eq_any_find? hs.ordered (p := (Time.isWithin · a.validity now'))
    (fun _ _ hle => isWithin_of_le hle) name

/-- What a request does to the files, and to the times of checks. -/
theorem refresh_of_plan? (hp : a.plan? t path = some plan) (now : Time) (checks : Checks) :
    a.refresh t now checks path =
      if (checks.get? (Text.join "/" plan.name)).any (Time.isWithin · a.validity now) then
        (t, checks)
      else (if isStale t plan then a.generate t now plan else t,
        checks.insert (Text.join "/" plan.name) now) := by
  simp only [refresh, hp]
  cases checks.get? (Text.join "/" plan.name) with
  | none => rfl
  | some since => rw [Option.any_some]

theorem Agrees.request (hs : Agrees now s h) (path : String) :
    Agrees now (a.step s (.request now path)) (h.step a (.request now path)) := by
  obtain ⟨t, checks⟩ := s
  obtain rfl : t = h.files := hs.files
  cases hp : a.plan? h.files path with
  | none => simpa [step, History.step, refresh, hp] using hs
  | some plan =>
    have hk := isKey_of_plan? hp
    have hrecent := hs.isRecent_eq a hk now
    -- Both either check the artifact now, or neither does.
    cases hw : h.isRecent a plan.name now with
    | true =>
      rw [hw] at hrecent
      simpa [step, History.step, refresh_of_plan? hp, hp, hw, ← hrecent] using hs
    | false =>
      rw [hw] at hrecent
      simp only [step, History.step, refresh_of_plan? hp, hp, hw, ← hrecent]
      refine ⟨rfl, List.pairwise_cons.mpr ⟨hs.past, hs.ordered⟩, ?_, ?_⟩
      · simpa using hs.past
      · intro name hname
        by_cases he : name = plan.name
        · simp [he]
        · have hne : Text.join "/" name ≠ Text.join "/" plan.name :=
            fun hj => he (join_inj hname hk hj)
          simp [Keyed.get?_insert_of_ne _ hne, Ne.symm he, hs.last name hname]

theorem agrees_after (ho : (events.filterMap Event.time? ++ [now]).Pairwise (· ≤ ·)) :
    Agrees now (a.after t events) (a.history t events) := by
  induction events using List.reverseRecOn generalizing now with
  | nil => exact ⟨rfl, List.Pairwise.nil, by simp [history], fun _ _ => rfl⟩
  | append_singleton events event ih =>
    -- What happened before the last event agrees as of the time of that event.
    simp only [after, history, List.foldl_append, List.foldl_cons, List.foldl_nil] at ih ⊢
    cases event with
    | change files =>
      have hs := ih (by simpa [List.filterMap_cons, Event.time?] using ho)
      exact ⟨rfl, hs.ordered, hs.past, hs.last⟩
    | request before path =>
      simp only [List.filterMap_append, List.filterMap_cons, List.filterMap_nil, Event.time?] at ho
      have hs := ih (List.pairwise_append.mp ho).1
      have hle : before ≤ now := by
        simpa using (List.pairwise_append.mp ho).2.2 before (by simp) now (by simp)
      exact (hs.request path).later hle

theorem isSound_after (ht : t.IsSound) (hs : ∀ files, .change files ∈ events → files.IsSound) :
    (a.after t events).1.IsSound := by
  induction events using List.reverseRecOn with
  | nil => exact ht
  | append_singleton events event ih =>
    simp only [after, List.foldl_append, List.foldl_cons, List.foldl_nil] at ih ⊢
    cases event with
    | change files => exact hs files (by simp)
    | request now path =>
      exact isSound_refresh (ih fun files hf => hs files (by simp [hf])) now _ path

/-! What a request does to files. -/

/-- Whether an artifact is missing, or has a source that is newer or that has no time. -/
def Plan.IsDue (t : FileTree) (plan : Plan) : Prop :=
  t.find? plan.artifact = none ∨ ∃ source ∈ plan.sources, t.modified? source = none ∨
    ∃ old new, t.modified? plan.artifact = some old ∧ t.modified? source = some new ∧ old < new

/-- Whether a source can be read as a text, and compiled. -/
def IsReadable (a : Assets) (t : FileTree) (source : String) : Prop :=
  ∃ text, t.readText source = .ok text ∧
    ∀ compile, a.compiler = some compile → (compile text).isSome = true

theorem isDue_of_isStale (hs : isStale t plan = true)
    (hf : t.hasFolder (destination plan.artifact) = false) : plan.IsDue t := by
  cases hfind : t.find? plan.artifact with
  | none => exact Or.inl hfind
  | some entry =>
    cases entry with
    | folder =>
      -- A folder in the artifact's place isn't missing, but nothing can be written there.
      obtain ⟨location, hlocate, hat⟩ := Option.bind_eq_some_iff.mp hfind
      rw [FileTree.destination_of_locate hlocate, Bool.eq_false_iff, ne_eq,
        FileTree.hasFolder_iff] at hf
      exact absurd hat hf
    | file content old =>
      have hold : t.modified? plan.artifact = some old := by simp [FileTree.modified?, hfind]
      simp only [isStale, hold, List.any_eq_true] at hs
      obtain ⟨source, hmem, hs⟩ := hs
      refine Or.inr ⟨source, hmem, ?_⟩
      cases hnew : t.modified? source with
      | none => exact Or.inl rfl
      | some new =>
        rw [hnew] at hs
        exact Or.inr ⟨old, new, hold, rfl, of_decide_eq_true hs⟩

theorem isStale_of_isDue (h : plan.IsDue t) : isStale t plan = true := by
  unfold isStale
  rcases h with hnone | ⟨source, hmem, h⟩
  · have hold : t.modified? plan.artifact = none := by simp [FileTree.modified?, hnone]
    rw [hold]
  · cases hold : t.modified? plan.artifact with
    | none => rfl
    | some old =>
      refine List.any_eq_true.mpr ⟨source, hmem, ?_⟩
      rcases h with hnew | ⟨old', new, hold', hnew, hlt⟩
      · rw [hnew]
      · obtain rfl : old = old' := by simpa [hold] using hold'
        simpa [hnew] using hlt

theorem exists_of_foldlM {α β : Type} {f : β → α → Option β} {l : List α} {init r : β}
    (h : l.foldlM f init = some r) : ∀ x ∈ l, ∃ b b', f b x = some b' := by
  induction l generalizing init with
  | nil => simp
  | cons y l ih =>
    simp only [List.foldlM_cons, Option.bind_eq_bind, Option.bind_eq_some_iff] at h
    obtain ⟨b, hb, h⟩ := h
    rintro x hx
    rcases List.mem_cons.mp hx with rfl | hx
    · exact ⟨init, b, hb⟩
    · exact ih h x hx

/-- An artifact that is generated has no source that can't be read or compiled. -/
theorem isReadable_of_content? {content : String} (h : a.content? t plan = some content) :
    ∀ source ∈ plan.sources, a.IsReadable t source := by
  intro source hs
  simp only [content?, Option.bind_eq_bind, Option.bind_eq_some_iff] at h
  obtain ⟨joined, hjoined, -⟩ := h
  obtain ⟨before, behind, h⟩ := exists_of_foldlM hjoined source hs
  simp only [Option.bind_eq_some_iff] at h
  obtain ⟨text, htext, h⟩ := h
  refine ⟨text, ?_, fun compile hc => ?_⟩
  · cases hr : t.readText source <;> simp_all [Except.toOption]
  · rw [hc] at h
    obtain ⟨compiled, hcompiled, -⟩ := Option.bind_eq_some_iff.mp h
    simp [hcompiled]

/-- A file that a request changes is the artifact that it asks for, which is due and wasn't checked
within the validity. -/
theorem exists_of_fileAt?_refresh {checks : Checks} {l : Location}
    (h : (a.refresh t now checks path).1.fileAt? l ≠ t.fileAt? l) : ∃ plan content,
      a.plan? t path = some plan ∧ l = destination plan.artifact ∧ plan.IsDue t ∧
      (checks.get? (Text.join "/" plan.name)).any (Time.isWithin · a.validity now) = false ∧
      a.content? t plan = some content ∧
      (a.refresh t now checks path).1.fileAt? l = some (content.toUTF8, now) := by
  cases hp : a.plan? t path with
  | none => simp [refresh, hp] at h
  | some plan =>
    rw [refresh_of_plan? hp] at h ⊢
    cases hw : (checks.get? (Text.join "/" plan.name)).any (Time.isWithin · a.validity now) with
    | true => simp [hw] at h
    | false =>
      cases hs : isStale t plan with
      | false => simp [hw, hs] at h
      | true =>
        cases hc : a.content? t plan with
        | none => simp [hw, hs, generate, hc] at h
        | some content =>
          simp only [hw, hs, generate, hc] at h ⊢
          obtain ⟨hl, hf, hfile⟩ := FileTree.fileAt?_create t plan.artifact _ now h
          exact ⟨plan, content, rfl, hl, isDue_of_isStale hs (hl ▸ hf), hw, hc, hfile⟩

variable (a) in
/-- Whether a request has an artifact generated after all that happened: it's due, no check of it was
made within the validity, and all of its sources can be read and compiled. -/
structure History.Generates (h : History) (now : Time) (path : String) (plan : Plan)
    (content : String) : Prop where
  planned : a.plan? h.files path = some plan
  due : plan.IsDue h.files
  unchecked : ∀ check ∈ h.made, check.1 = plan.name →
    Time.isWithin check.2 a.validity now = false
  readable : ∀ source ∈ plan.sources, a.IsReadable h.files source
  generated : a.content? h.files plan = some content

/-- In any run of requests and changes of files by others, a request is passed on as it is. An
artifact is below the first root, and no source of it is there. If it's due, wasn't checked within
the validity, and has no source that can't be read or compiled, it's created, and no other file is
changed by a request. -/
theorem generates_when_due (ht : t.IsSound) (hs : ∀ files, .change files ∈ events → files.IsSound)
    (ho : (events.filterMap Event.time? ++ [now]).Pairwise (· ≤ ·)) :
    (a.history t events).files = (a.after t events).1 ∧
    (∀ place next req w, (w.files, w.checks.getD place {}) = a.after t events → w.now = now →
      a.serve place next req w = next req { w with
        files := (a.after t (events ++ [.request now req.uri.path])).1
        checks := w.checks.setIfInBounds place
          (a.after t (events ++ [.request now req.uri.path])).2 }) ∧
    (∀ path plan, a.plan? (a.after t events).1 path = some plan →
      (∃ root, a.roots.head? = some root ∧
        destination plan.artifact = destination root ++ plan.name) ∧
      (∀ name ∈ plan.name, IsName name) ∧
      ∀ source ∈ plan.sources, destination source ≠ destination plan.artifact) ∧
    (∀ path plan content, (a.history t events).Generates a now path plan content →
      (a.after t (events ++ [.request now path])).1 =
        (a.after t events).1.create plan.artifact content.toUTF8 now) ∧
    ∀ path l, (a.after t (events ++ [.request now path])).1.fileAt? l ≠
        (a.after t events).1.fileAt? l →
      ∃ plan content, (a.history t events).Generates a now path plan content ∧
        l = destination plan.artifact ∧
        (a.after t (events ++ [.request now path])).1.fileAt? l = some (content.toUTF8, now) := by
  have hstep : ∀ path, a.after t (events ++ [.request now path]) =
      a.refresh (a.after t events).1 now (a.after t events).2 path := by
    intro path
    simp [after, step]
  have hagrees := agrees_after (a := a) (t := t) ho
  have hunchecked : ∀ {path plan}, a.plan? (a.after t events).1 path = some plan →
      (((a.after t events).2.get? (Text.join "/" plan.name)).any
        (Time.isWithin · a.validity now) = false ↔
      ∀ check ∈ (a.history t events).made, check.1 = plan.name →
        Time.isWithin check.2 a.validity now = false) := by
    intro path plan hp
    rw [← hagrees.isRecent_eq a (isKey_of_plan? hp), History.isRecent, List.any_eq_false]
    simp
  refine ⟨hagrees.files.symm, ?_, ?_, ?_, ?_⟩
  · intro place next req w hw hnow
    rw [hstep, ← hw, ← hnow]
    rfl
  · intro path plan hp
    obtain ⟨root, -, -, hroot, hplace, hnames, -⟩ := exists_of_plan? hp
    exact ⟨⟨root, hroot, hplace⟩, hnames,
      fun source => destination_ne_of_mem_sources (isSound_after ht hs) hp⟩
  · rintro path plan content ⟨hp, hdue, hw, -, hc⟩
    rw [← hagrees.files] at hp hdue hc
    rw [hstep, refresh_of_plan? hp, (hunchecked hp).mpr hw]
    simp [isStale_of_isDue hdue, generate, hc]
  · intro path l h
    rw [hstep] at h ⊢
    obtain ⟨plan, content, hp, hl, hdue, hw, hc, hfile⟩ := exists_of_fileAt?_refresh h
    refine ⟨plan, content, ?_, hl, hfile⟩
    rw [hunchecked hp] at hw
    rw [hagrees.files] at hp hdue hc
    exact ⟨hp, hdue, hw, isReadable_of_content? hc, hc⟩

/-- The scripts of the site, not to be checked again within a second. -/
def checkedAssets : Assets := { siteAssets with validity := 1000 }

/-- The joined scripts of the site are asked for, and removed by others after that. -/
def siteEvents : List Event := [.request 5 "/app/all.js", .change siteFiles]

theorem generates_when_due_site : siteFiles.IsSound ∧
    (∀ files, .change files ∈ siteEvents → files.IsSound) ∧
    (siteEvents.filterMap Event.time? ++ [3 * Time.second]).Pairwise (· ≤ ·) ∧
    ∃ plan content, (checkedAssets.history siteFiles siteEvents).Generates checkedAssets
        (3 * Time.second) "/app/all.js" plan content ∧
      ["scripts", "app", "all.js"] = destination plan.artifact ∧
      (checkedAssets.after siteFiles
        (siteEvents ++ [.request (3 * Time.second) "/app/all.js"])).1.fileAt?
          ["scripts", "app", "all.js"] = some (content.toUTF8, 3 * Time.second) := by
  have ht : siteFiles.IsSound :=
    ((FileTree.isSound_empty.create _ _ _).create _ _ _).create _ _ _
  have hs : ∀ files, .change files ∈ siteEvents → files.IsSound := by
    intro files hf
    obtain rfl : files = siteFiles := by simpa [siteEvents] using hf
    exact ht
  have ho : (siteEvents.filterMap Event.time? ++ [3 * Time.second]).Pairwise (· ≤ ·) := by
    decide +kernel
  obtain ⟨-, -, -, -, h⟩ := generates_when_due (a := checkedAssets) ht hs ho
  refine ⟨ht, hs, ho, h "/app/all.js" ["scripts", "app", "all.js"] ?_⟩
  decide +kernel

end RequestRouting.Assets
