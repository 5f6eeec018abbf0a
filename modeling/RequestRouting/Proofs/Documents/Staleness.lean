import Mathlib.Data.List.Induction
import Mathlib.Logic.Function.Basic
import RequestRouting.Documents.Source
import RequestRouting.Proofs.Keyed

/-!
# How old a document may be

A source may answer with a lookup that it made before, under any spelling of the name. The files may
have changed since, but not for longer than lookups may be reused. Forgetting those that expired
doesn't make a difference: the source answers as if it kept the last lookup of every name forever
and looked at its age only.
-/

namespace RequestRouting.DocumentSource

/-- A call of a source: when it's made, what the files are then, and the name that's asked for. -/
structure Call where
  now : Time
  files : FileTree
  name : String

/-- The name that's looked up. -/
def Call.key (call : Call) : String := Text.trim (· = '/') call.name

/-- The last lookup of every name, with the time it was made. -/
abbrev Lasting := String → Option (Option Document × Time)

variable (s : DocumentSource)

/-- Whether a lookup may be reused. -/
def isLive (now : Time) (entry : Option Document × Time) : Bool :=
  Time.isWithin entry.2 s.validity now

/-- Answers a call with the last lookup of the name if it may be reused, else with a new one. -/
def Lasting.find (l : Lasting) (call : Call) : Option Document × Lasting :=
  match (l call.key).filter (s.isLive call.now) with
  | some (document, _) => (document, l)
  | none =>
    let document := s.lookup call.files call.key
    (document, Function.update l call.key (some (document, call.now)))

/-- The lookups that may be reused after some calls. -/
def held (calls : List Call) : Cache :=
  calls.foldl (fun c call => (s.find call.files call.now c call.name).2) {}

/-- The answer to a call after others. -/
def answer (before : List Call) (call : Call) : Option Document :=
  (s.find call.files call.now (s.held before) call.name).1

/-- The last lookups after some calls, if none is ever forgotten. -/
def lasting (calls : List Call) : Lasting :=
  calls.foldl (fun l call => (l.find s call).2) fun _ => none

/-- The answer to a call after others, if no lookup is ever forgotten. -/
def lastingAnswer (before : List Call) (call : Call) : Option Document :=
  ((s.lasting before).find s call).1

variable {s} {now now' : Time} {c : Cache} {l : Lasting} {calls : List Call} {call : Call}

theorem Lasting.find_of_some {reused : Option Document × Time}
    (h : (l call.key).filter (s.isLive call.now) = some reused) :
    l.find s call = (reused.1, l) := by simp only [Lasting.find, h]

theorem Lasting.find_of_none (h : (l call.key).filter (s.isLive call.now) = none) :
    l.find s call = (s.lookup call.files call.key, Function.update l call.key
      (some (s.lookup call.files call.key, call.now))) := by simp only [Lasting.find, h]

/-! Lookups expire once and for all. -/

section Age

variable {entry : Option Document × Time}

theorem isLive_of_le (hle : now ≤ now') (h : s.isLive now' entry = true) :
    s.isLive now entry = true := by
  simp only [isLive, Time.isWithin, decide_eq_true_eq] at h ⊢
  exact Nat.lt_of_le_of_lt (Nat.sub_le_sub_right hle entry.2) h

/-- Nothing is reused by a source that isn't given a time span. -/
theorem isLive_of_validity (h : s.validity = 0) : s.isLive now entry = false := by
  simp [isLive, Time.isWithin, h]

theorem isLive_self (h : s.validity ≠ 0) (d : Option Document) :
    s.isLive now (d, now) = true := by
  have hpos : 0 < s.validity * Time.millisecond :=
    Nat.mul_pos (Nat.pos_of_ne_zero h) (by decide)
  simpa [isLive, Time.isWithin] using hpos

theorem lt_of_isLive (hle : entry.2 ≤ now) (h : s.isLive now entry = true) :
    now < entry.2 + s.validity * Time.millisecond := by
  simp only [isLive, Time.isWithin, decide_eq_true_eq] at h
  exact (Nat.sub_lt_iff_lt_add' hle).mp h

theorem filter_isLive_of_le (hle : now ≤ now') (o : Option (Option Document × Time)) :
    (o.filter (s.isLive now)).filter (s.isLive now') = o.filter (s.isLive now') := by
  rw [Option.filter_filter]
  refine congrArg (Option.filter · o) (funext fun entry => ?_)
  cases h : s.isLive now' entry with
  | false => exact Bool.and_false _
  | true => exact (Bool.and_true _).trans (isLive_of_le hle h)

end Age

/-! What may be reused is the same whether or not expired lookups are forgotten. -/

section Agreement

variable (s) in
/-- Whether the same lookups may be reused at a point in time. -/
structure Agrees (now : Time) (c : Cache) (l : Lasting) : Prop where
  ascending : Keyed.IsAscending c.entries.entries
  live : ∀ name,
    (c.entries.get? name).filter (s.isLive now) = (l name).filter (s.isLive now)

theorem agrees_empty : Agrees s now {} fun _ => none := ⟨List.Pairwise.nil, fun _ => rfl⟩

/-- What can't be told apart now can't be told apart later. -/
theorem Agrees.later (h : Agrees s now c l) (hle : now ≤ now') : Agrees s now' c l := by
  refine ⟨h.ascending, fun name => ?_⟩
  rw [← filter_isLive_of_le hle, h.live name, filter_isLive_of_le hle]

theorem get?_eq_filter (c : Cache) (name : String) :
    c.get? s.validity now name =
      ((c.entries.get? name).filter (s.isLive now)).map (·.1) := by
  unfold Cache.get?
  cases c.entries.get? name with
  | none => rfl
  | some entry => cases h : s.isLive now entry <;> simp_all [isLive, Option.filter]

theorem sweep_ascending (h : Keyed.IsAscending c.entries.entries) :
    Keyed.IsAscending (c.sweep s.validity now).entries.entries := List.Pairwise.filter _ h

/-- Forgetting what expired leaves what may be reused. -/
theorem filter_get?_sweep (h : Keyed.IsAscending c.entries.entries) (name : String) :
    ((c.sweep s.validity now).entries.get? name).filter (s.isLive now) =
      (c.entries.get? name).filter (s.isLive now) := by
  have hf := Keyed.find?_filter h name fun entry => s.isLive now entry.2
  exact (congrArg (Option.filter (s.isLive now)) hf).trans (filter_isLive_of_le (Nat.le_refl now) _)

/-- A new lookup is kept on both sides, and may be followed by a sweep on one of them. -/
theorem Agrees.put (h : Agrees s now c l) (name : String) (d : Option Document) :
    Agrees s now (c.put s.validity now name d) (Function.update l name (some (d, now))) := by
  let inserted : Cache := { entries := c.entries.insert name (d, now), inserts := c.inserts + 1 }
  have hi : Agrees s now inserted (Function.update l name (some (d, now))) := by
    refine ⟨h.ascending.place name (d, now), fun other => ?_⟩
    by_cases ho : other = name
    · subst ho
      rw [Function.update_self, Keyed.get?_insert_self]
    · rw [Function.update_of_ne ho, Keyed.get?_insert_of_ne c.entries ho]
      exact h.live other
  unfold Cache.put
  dsimp only
  split
  · exact ⟨sweep_ascending hi.ascending, fun other =>
      (filter_get?_sweep hi.ascending other).trans (hi.live other)⟩
  · exact hi

/-- A call is answered alike, and what may be reused stays the same. -/
theorem Agrees.find (h : Agrees s call.now c l) :
    (s.find call.files call.now c call.name).1 = (l.find s call).1 ∧
      Agrees s call.now (s.find call.files call.now c call.name).2 (l.find s call).2 := by
  have hlive := h.live call.key
  unfold DocumentSource.find Lasting.find
  dsimp only
  by_cases hv : s.validity = 0
  · -- nothing may be reused, so nothing has to be kept
    have hnone (o : Option (Option Document × Time)) : o.filter (s.isLive call.now) = none :=
      Option.filter_eq_none_iff.mpr fun _ _ => by simp [isLive_of_validity hv]
    rw [if_pos hv, hnone]
    exact ⟨rfl, h.ascending, fun name => (hnone _).trans (hnone _).symm⟩
  · have hget : c.get? s.validity call.now (Text.trim (· = '/') call.name) =
        ((l call.key).filter (s.isLive call.now)).map (·.1) := by
      rw [get?_eq_filter, ← hlive]
      rfl
    rw [if_neg hv, hget]
    cases (l call.key).filter (s.isLive call.now) with
    | none => exact ⟨rfl, h.put call.key _⟩
    | some entry => exact ⟨rfl, h⟩

end Agreement

/-! Runs of calls at times that don't decrease. -/

section Runs

variable {before : List Call} {entry : Option Document × Time}

/-- Whether no call is made earlier than one before it. -/
abbrev InOrder (calls : List Call) : Prop := calls.Pairwise (·.now ≤ ·.now)

theorem held_concat (calls : List Call) (call : Call) :
    s.held (calls ++ [call]) = (s.find call.files call.now (s.held calls) call.name).2 :=
  List.foldl_append

theorem lasting_concat (calls : List Call) (call : Call) :
    s.lasting (calls ++ [call]) = ((s.lasting calls).find s call).2 :=
  List.foldl_append

theorem agrees_held (h : InOrder (calls ++ [call])) :
    Agrees s call.now (s.held calls) (s.lasting calls) := by
  induction calls using List.reverseRecOn generalizing call with
  | nil => exact agrees_empty
  | append_singleton calls last ih =>
    obtain ⟨hcalls, -, hle⟩ := List.pairwise_append.mp h
    have hlast : last.now ≤ call.now :=
      hle last (List.mem_append_right _ (List.mem_singleton_self _)) call
        (List.mem_singleton_self _)
    rw [held_concat, lasting_concat]
    exact (ih hcalls).find.2.later hlast

/-- Whether every lookup that's kept was made by one of the calls. -/
def Sourced (s : DocumentSource) (calls : List Call) (l : Lasting) : Prop :=
  ∀ name entry, l name = some entry → ∃ origin ∈ calls,
    origin.key = name ∧ entry = (s.lookup origin.files name, origin.now)

/-- A call keeps no lookup but its own. -/
theorem Sourced.find (h : Sourced s calls l) (call : Call) :
    Sourced s (calls ++ [call]) (l.find s call).2 := by
  have hkept : Sourced s (calls ++ [call]) l := fun name entry he =>
    let ⟨origin, hmem, horigin⟩ := h name entry he
    ⟨origin, List.mem_append_left _ hmem, horigin⟩
  cases hlive : (l call.key).filter (s.isLive call.now) with
  | some reused =>
    rw [Lasting.find_of_some hlive]
    exact hkept
  | none =>
    rw [Lasting.find_of_none hlive]
    intro name entry he
    dsimp only at he
    by_cases hn : name = call.key
    · subst hn
      rw [Function.update_self] at he
      exact ⟨call, List.mem_append_right _ (List.mem_singleton_self _), rfl,
        (Option.some.inj he).symm⟩
    · rw [Function.update_of_ne hn] at he
      exact hkept name entry he

theorem sourced_lasting (calls : List Call) : Sourced s calls (s.lasting calls) := by
  induction calls using List.reverseRecOn with
  | nil => exact fun _ _ he => nomatch he
  | append_singleton calls last ih =>
    rw [lasting_concat]
    exact ih.find last

/-- What a call is answered with if no lookup is forgotten: its own lookup, or one that may be
reused. -/
theorem Sourced.exists_of_find (h : Sourced s calls l) (call : Call) : ∃ origin ∈ calls ++ [call],
    origin.key = call.key ∧ (l.find s call).1 = s.lookup origin.files call.key ∧
      (origin = call ∨ s.isLive call.now (s.lookup origin.files call.key, origin.now) = true) := by
  cases hlive : (l call.key).filter (s.isLive call.now) with
  | some reused =>
    obtain ⟨hentry, hl⟩ := Option.filter_eq_some_iff.mp hlive
    obtain ⟨origin, hmem, hkey, heq⟩ := h call.key reused hentry
    have hvalue : (l.find s call).1 = s.lookup origin.files call.key := by
      rw [Lasting.find_of_some hlive, heq]
    exact ⟨origin, List.mem_append_left _ hmem, hkey, hvalue, .inr (heq ▸ hl)⟩
  | none =>
    have hvalue : (l.find s call).1 = s.lookup call.files call.key := by
      rw [Lasting.find_of_none hlive]
    exact ⟨call, List.mem_append_right _ (List.mem_singleton_self _), rfl, hvalue, .inl rfl⟩

/-- A call is answered with the lookup of its name in files as they are or were less than the time
span ago, in the files as they are if there is no time span, and as if no lookup was ever
forgotten. -/
theorem answer_fresh (s : DocumentSource) (before : List Call) (call : Call)
    (h : InOrder (before ++ [call])) :
    s.answer before call = s.lastingAnswer before call ∧
      ∃ origin ∈ before ++ [call], origin.key = call.key ∧
        s.answer before call = s.lookup origin.files call.key ∧
        if s.validity = 0 then origin = call
        else origin.now ≤ call.now ∧ call.now < origin.now + s.validity * Time.millisecond := by
  have hsame : s.answer before call = s.lastingAnswer before call := (agrees_held h).find.1
  obtain ⟨origin, hmem, hkey, hfound, hage⟩ :=
    (sourced_lasting (s := s) before).exists_of_find call
  refine ⟨hsame, origin, hmem, hkey, hsame.trans hfound, ?_⟩
  have hle : origin.now ≤ call.now := by
    rcases List.mem_append.mp hmem with hearlier | hself
    · exact (List.pairwise_append.mp h).2.2 origin hearlier call (List.mem_singleton_self _)
    · exact Nat.le_of_eq (congrArg Call.now (List.mem_singleton.mp hself))
  split
  · rename_i hv
    exact hage.resolve_right fun hlive => by simp [isLive_of_validity hv] at hlive
  · rename_i hv
    refine ⟨hle, ?_⟩
    rcases hage with rfl | hlive
    · exact lt_of_isLive (Nat.le_refl origin.now) (isLive_self hv none)
    · exact lt_of_isLive hle hlive

end Runs

/-! A document that appears while the lookup that missed it may be reused. -/

section Appearing

/-- A source whose lookups may be reused for a tenth of a second. -/
def scripts : DocumentSource := { root := "d", validity := 100 }

/-- A call before there is a document. -/
def early : Call := ⟨0, {}, "/a/"⟩

/-- A call for the document under another spelling, after half of the time span. -/
def late : Call := ⟨50 * Time.millisecond,
  { entries := [(["d"], .folder), (["d", "a.js"], .file .empty 0)] }, "a"⟩

theorem answer_fresh_late :
    InOrder ([early] ++ [late]) ∧ (scripts.answer [early] late).isNone = true ∧
      (scripts.lookup late.files late.key).isSome = true ∧
      scripts.answer [early] late = scripts.lastingAnswer [early] late ∧
      ∃ origin ∈ [early] ++ [late], origin.key = late.key ∧
        scripts.answer [early] late = scripts.lookup origin.files late.key ∧
        if scripts.validity = 0 then origin = late
        else origin.now ≤ late.now ∧
          late.now < origin.now + scripts.validity * Time.millisecond := by
  have horder : InOrder ([early] ++ [late]) := by simp [InOrder, early, late]
  have hnone : (scripts.answer [early] late).isNone = true := by decide +kernel
  have hsome : (scripts.lookup late.files late.key).isSome = true := by decide +kernel
  exact ⟨horder, hnone, hsome, answer_fresh scripts [early] late horder⟩

end Appearing

end RequestRouting.DocumentSource
