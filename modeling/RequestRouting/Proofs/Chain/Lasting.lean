import Mathlib.Data.Option.Basic
import Mathlib.Logic.Function.Basic
import RequestRouting.Proofs.Chain.Isolation
import RequestRouting.Proofs.Chain.Memory

/-!
# Forgetting what expired can't be observed

A chain forgets winners that expired when it looks them up, and all of them at once every now and
then. It answers as if it kept the last winner for each reference and the time it won forever, looked
at it for the time-to-live only, and dropped it for the reasons there are apart from time: a 404 or a
server error of the winner, and being told so.

The two are related by what they'd look at. All that a chain remembers is kept, and whatever is kept
and didn't expire is remembered. Between a lookup that found nothing and the end of the search, the
chain remembers nothing for the reference.
-/

namespace RequestRouting.Chain

/-- The last winner for each reference, with the time it won. -/
abbrev Lasting := String → Option (Nat × Time)

namespace Lasting

/-- Nothing is kept. -/
def empty : Lasting := fun _ => none

/-- Keeps a winner in place of the one before it. -/
def keep (l : Lasting) (reference : String) (index : Nat) (now : Time) : Lasting :=
  Function.update l reference (some (index, now))

/-- Drops the winner for a reference. -/
def drop (l : Lasting) (reference : String) : Lasting := Function.update l reference none

@[simp] theorem keep_self (l : Lasting) (reference : String) (index : Nat) (now : Time) :
    l.keep reference index now reference = some (index, now) := Function.update_self _ _ _

theorem keep_of_ne (l : Lasting) {r reference : String} (h : r ≠ reference) (index : Nat)
    (now : Time) : l.keep reference index now r = l r := Function.update_of_ne h _ _

@[simp] theorem drop_self (l : Lasting) (reference : String) : l.drop reference reference = none :=
  Function.update_self _ _ _

theorem drop_of_ne (l : Lasting) {r reference : String} (h : r ≠ reference) :
    l.drop reference r = l r := Function.update_of_ne h _ _

/-- The winner for a reference while its age is below the time-to-live. -/
def winner? (l : Lasting) (ttl : Duration) (now : Time) (reference : String) : Option Nat :=
  match l reference with
  | some (index, since) => if Time.isWithin since ttl now then some index else none
  | none => none

variable {σ : Type}

/-- Offers a request to handlers in order, leaving out the one that was tried already. The first one
that answers is kept, unless it fails. -/
def search (reference : String) (tried : Option Nat) (req : Request) :
    Nat → Option Response → List (Request → Play Lasting σ Response) → Play Lasting σ Response
  | _, last, [] => return last.getD (.ofStatus .notFound)
  | index, last, handler :: rest => do
    if tried = some index then search reference tried req (index + 1) last rest
    else
      let res ← handler req
      if res.status = .notFound then search reference tried req (index + 1) (some res) rest
      else
        if !res.status.isServerError then
          let now := (← get).now
          Play.update (·.keep reference index now)
        return res

/-- Offers a request to the handlers, the last winner first. -/
def serve (ttl : Duration) (handlers : List (Request → Play Lasting σ Response)) (req : Request) :
    Play Lasting σ Response := do
  let reference := req.reference
  let s ← get
  let winner := s.memory.winner? ttl s.now reference
  match winner.bind (handlers[·]?) with
  | none => search reference winner req 0 none handlers
  | some handler =>
    let res ← handler req
    if res.status = .notFound then
      Play.update (·.drop reference)
      search reference winner req 0 none handlers
    else
      if res.status.isServerError then Play.update (·.drop reference)
      return res

end Lasting

/-- The way to keep winners forever. -/
def lasting (ttl : Duration) {σ : Type} : Mechanism Lasting σ where
  serve := Lasting.serve ttl
  invalidate reference := (·.drop reference)
  clear _ := Lasting.empty

variable {σ α β : Type} {ttl : Duration} {size : Nat} {reference : String}

/-! Places that a chain and the one that keeps winners forever can't be told apart in. -/

section Mirrors

/-- Whether a chain and the one that keeps winners forever are in the same place. -/
structure Mirrors (ttl : Duration) (size : Nat) (s : Stage Cache σ) (t : Stage Lasting σ) :
    Prop where
  now : s.now = t.now
  state : s.state = t.state
  invoked : s.invoked = t.invoked
  /-- What is remembered is kept. -/
  held : ∀ entry ∈ s.memory.winners.entries, t.memory entry.1 = some entry.2
  /-- What is kept and didn't expire is remembered. -/
  live : ∀ reference index since, t.memory reference = some (index, since) →
    Time.isWithin since ttl t.now = true → (reference, index, since) ∈ s.memory.winners.entries
  bounds : ∀ entry ∈ s.memory.winners.entries, 0 < ttl ∧ entry.2.1 < size

/-- Whether moreover the chain remembers nothing for a reference. -/
def MirrorsWithout (ttl : Duration) (size : Nat) (reference : String) (s : Stage Cache σ)
    (t : Stage Lasting σ) : Prop :=
  Mirrors ttl size s t ∧ ∀ entry ∈ s.memory.winners.entries, entry.1 ≠ reference

variable {s : Stage Cache σ} {t : Stage Lasting σ}

theorem Time.isWithin_of_add {since took now : Time} {span : Duration}
    (h : Time.isWithin since span (now + took) = true) : Time.isWithin since span now = true := by
  simp only [Time.isWithin, decide_eq_true_eq] at h ⊢
  exact Nat.lt_of_le_of_lt (Nat.sub_le_sub_right (Nat.le_add_right now took) since) h

namespace Mirrors

theorem start (now : Time) (state : σ) :
    Mirrors ttl size ⟨now, {}, state, []⟩ ⟨now, Lasting.empty, state, []⟩ where
  now := rfl
  state := rfl
  invoked := rfl
  held _ he := absurd he List.not_mem_nil
  live _ _ _ he := by cases he
  bounds _ he := absurd he List.not_mem_nil

/-- Time makes less of what is kept live. -/
theorem wait (h : Mirrors ttl size s t) (span : Time) :
    Mirrors ttl size { s with now := s.now + span } { t with now := t.now + span } :=
  { h with
    now := by rw [h.now]
    live := fun r i since he hl => h.live r i since he (Time.isWithin_of_add hl) }

theorem answered (h : Mirrors ttl size s t) (index : Nat) (res : Response) (took : Time)
    (state : σ) :
    Mirrors ttl size (s.answered index res took state) (t.answered index res took state) :=
  { h.wait took with
    state := rfl
    invoked := by simp only [Stage.answered, h.invoked] }

/-- Forgetting a winner and dropping it is the same. -/
theorem forget (h : Mirrors ttl size s t) (reference : String) :
    MirrorsWithout ttl size reference { s with memory := s.memory.forget reference }
      { t with memory := t.memory.drop reference } := by
  refine ⟨{ h with held := ?_, live := ?_, bounds := ?_ }, fun e he => (mem_forget.mp he).2⟩
  · intro entry he
    obtain ⟨he, hne⟩ := mem_forget.mp he
    exact (t.memory.drop_of_ne hne).trans (h.held entry he)
  · intro r index since he hl
    have hne : r ≠ reference := by
      rintro rfl
      cases he.symm.trans (t.memory.drop_self r)
    have he := (t.memory.drop_of_ne hne).symm.trans he
    exact mem_forget.mpr ⟨h.live r index since he hl, hne⟩
  · intro entry he
    exact h.bounds entry (mem_forget.mp he).1

theorem clear (h : Mirrors ttl size s t) :
    Mirrors ttl size { s with memory := s.memory.clear }
      { t with memory := Lasting.empty } :=
  { h with
    held := fun _ he => absurd he mem_clear
    live := fun _ _ _ he => by cases he
    bounds := fun _ he => absurd he mem_clear }

/-- A remembered winner that didn't expire is found in either place. -/
theorem winner?_of_some (h : Mirrors ttl size s t) {index : Nat}
    (hw : s.memory.winner? ttl s.now reference = some index) :
    t.memory.winner? ttl t.now reference = some index ∧ index < size := by
  obtain ⟨since, he, hl⟩ := exists_of_winner? hw
  refine ⟨?_, (h.bounds _ he).2⟩
  rw [Lasting.winner?, h.held _ he]
  simp only [← h.now, hl, if_true]

/-- If nothing is found that didn't expire, whatever is remembered may be forgotten. -/
theorem winner?_of_none (h : Mirrors ttl size s t)
    (hw : s.memory.winner? ttl s.now reference = none) :
    t.memory.winner? ttl t.now reference = none ∧
      MirrorsWithout ttl size reference { s with memory := s.memory.forget reference } t := by
  have hexpired (index : Nat) (since : Time) (he : t.memory reference = some (index, since)) :
      Time.isWithin since ttl t.now = false := by
    by_contra hl
    rw [Bool.not_eq_false] at hl
    have hm := h.live _ _ _ he hl
    rw [Cache.winner?] at hw
    split at hw
    · rename_i i since' hget
      have hsame := (h.held _ (Keyed.mem_of_find? hget)).symm.trans he
      simp only [Option.some.injEq, Prod.mk.injEq] at hsame
      rw [hsame.2, h.now, if_pos hl] at hw
      cases hw
    · rename_i hget
      exact Keyed.not_mem_of_find? hget hm rfl
  constructor
  · rw [Lasting.winner?]
    split
    · rename_i index since he
      rw [if_neg (by rw [hexpired index since he]; exact Bool.false_ne_true)]
    · rfl
  · refine ⟨{ h with held := ?_, live := ?_, bounds := ?_ }, fun e he => (mem_forget.mp he).2⟩
    · exact fun entry he => h.held entry (mem_forget.mp he).1
    · intro r index since he hl
      refine mem_forget.mpr ⟨h.live r index since he hl, ?_⟩
      rintro rfl
      rw [hexpired index since he] at hl
      cases hl
    · exact fun entry he => h.bounds entry (mem_forget.mp he).1

/-- Without a time-to-live, nothing is remembered, and nothing that's kept is found. -/
theorem winner?_of_eq_zero (h : Mirrors ttl size s t) (httl : ttl = 0) :
    t.memory.winner? ttl t.now reference = none ∧ MirrorsWithout ttl size reference s t := by
  constructor
  · subst httl
    rw [Lasting.winner?]
    split <;> simp [Time.isWithin]
  · exact ⟨h, fun entry he => absurd httl (Nat.ne_of_gt (h.bounds entry he).1)⟩

end Mirrors

namespace MirrorsWithout

theorem answered (h : MirrorsWithout ttl size reference s t) (index : Nat) (res : Response)
    (took : Time) (state : σ) :
    MirrorsWithout ttl size reference (s.answered index res took state)
      (t.answered index res took state) := ⟨h.1.answered index res took state, h.2⟩

/-- Keeping a winner for good makes no difference to a chain that doesn't remember any. -/
theorem keep_of_eq_zero (h : MirrorsWithout ttl size reference s t) (httl : ttl = 0) (index : Nat)
    (now : Time) : Mirrors ttl size s { t with memory := t.memory.keep reference index now } :=
  { h.1 with
    held := fun entry he => (t.memory.keep_of_ne (h.2 entry he) _ _).trans (h.1.held entry he)
    live := fun r i since he hl => by simp [Time.isWithin, httl] at hl }

/-- Remembering a winner and keeping it is the same, even if all winners that expired are
forgotten. -/
theorem remember (h : MirrorsWithout ttl size reference s t) (httl : 0 < ttl) {index : Nat}
    (hi : index < size) :
    Mirrors ttl size { s with memory := s.memory.remember ttl s.now reference index }
      { t with memory := t.memory.keep reference index t.now } := by
  refine { h.1 with held := ?_, live := ?_, bounds := ?_ }
  · intro entry he
    rcases mem_of_mem_remember he with rfl | he
    · rw [h.1.now]
      exact t.memory.keep_self _ _ _
    · exact (t.memory.keep_of_ne (h.2 entry he) _ _).trans (h.1.held entry he)
  · intro r i since he hl
    refine mem_remember_of_mem (by rw [h.1.now]; exact hl) ?_
    by_cases hr : r = reference
    · subst hr
      have he := (t.memory.keep_self r index t.now).symm.trans he
      obtain ⟨rfl, rfl⟩ := Prod.mk.inj (Option.some.inj he)
      rw [h.1.now]
      exact Or.inl rfl
    · have he := (t.memory.keep_of_ne hr index t.now).symm.trans he
      exact Or.inr ⟨h.1.live r i since he hl, hr⟩
  · intro entry he
    rcases mem_of_mem_remember he with rfl | he
    · exact ⟨httl, hi⟩
    · exact h.1.bounds entry he

end MirrorsWithout

end Mirrors

/-- Whether the same is done in two places that are in the first relation, after which they're in
the second one. -/
def Simulates (P Q : Stage Cache σ → Stage Lasting σ → Prop) (x : Play Cache σ α)
    (y : Play Lasting σ α) : Prop :=
  ∀ s t, P s t → Option.Rel (fun a b => a.1 = b.1 ∧ Q a.2 b.2) (x s) (y t)

namespace Simulates

variable {P Q R : Stage Cache σ → Stage Lasting σ → Prop}

theorem pure (a : α) (h : ∀ s t, P s t → Q s t) :
    Simulates P Q (Pure.pure a) (Pure.pure a) := fun s t hp => .some ⟨rfl, h s t hp⟩

theorem bind {x : Play Cache σ α} {y : Play Lasting σ α} {f : α → Play Cache σ β}
    {g : α → Play Lasting σ β} (hx : Simulates P Q x y) (hf : ∀ a, Simulates Q R (f a) (g a)) :
    Simulates P R (x >>= f) (y >>= g) := by
  intro s t hp
  have h := hx s t hp
  rw [Play.bind_apply, Play.bind_apply]
  generalize x s = a, y t = b at h
  cases h with
  | none => exact .none
  | @some a b hq =>
    obtain ⟨a, s⟩ := a
    obtain ⟨b, t⟩ := b
    obtain ⟨rfl, hq⟩ := hq
    exact hf a s t hq

theorem modify {f : Stage Cache σ → Stage Cache σ} {g : Stage Lasting σ → Stage Lasting σ}
    (h : ∀ s t, P s t → Q (f s) (g t)) :
    Simulates P Q (modify f : Play Cache σ PUnit) (modify g : Play Lasting σ PUnit) :=
  fun s t hp => .some ⟨rfl, h s t hp⟩

/-- A handler answers in the same way in either place. -/
theorem invoke (child : Child σ) (index : Nat) (req : Request)
    (hp : ∀ s t, P s t → Mirrors ttl size s t)
    (ha : ∀ s t, P s t → ∀ res took state,
      Q (s.answered index res took state) (t.answered index res took state)) :
    Simulates P Q (child.invoke index req) (child.invoke index req) := by
  intro s t h
  rw [Child.invoke, Child.invoke, (hp s t h).now, (hp s t h).state]
  cases child req t.now t.state with
  | none => exact .none
  | some answer => exact .some ⟨rfl, ha s t h _ _ _⟩

end Simulates

/-- Either search asks the same handlers, and remembers or keeps the same winner. -/
theorem simulates_search (tried : Option Nat) (req : Request) (children : List (Child σ))
    (index : Nat) (last : Option Response) (hsize : index + children.length = size) :
    Simulates (MirrorsWithout ttl size reference) (Mirrors ttl size)
      (search stageAccess ttl reference tried req index last (cast index children))
      (Lasting.search reference tried req index last (cast index children)) := by
  induction children generalizing index last with
  | nil => exact .pure _ fun _ _ h => h.1
  | cons child rest ih =>
    rw [List.length_cons] at hsize
    rw [cast, cast, search, Lasting.search]
    split
    · exact ih (index + 1) last (by omega)
    · refine .bind (.invoke child index req (fun _ _ h => h.1) fun _ _ h => h.answered index)
        fun res => ?_
      split
      · exact ih (index + 1) (some res) (by omega)
      · cases res.status.isServerError with
        | true =>
          simp only [Bool.not_true, Bool.and_false, Bool.false_eq_true, if_false]
          exact .pure res fun _ _ h => h.1
        | false =>
          intro s t h
          by_cases httl : ttl = 0
          · simp only [httl, ne_eq, not_true_eq_false, decide_false, Bool.false_and,
              Bool.false_eq_true, if_false, Bool.not_false, if_true]
            exact .some ⟨rfl, httl ▸ h.keep_of_eq_zero httl index t.now⟩
          · simp only [ne_eq, httl, not_false_eq_true, decide_true, Bool.not_false,
              Bool.and_true, if_true]
            exact .some ⟨rfl, h.remember (Nat.pos_of_ne_zero httl) (by omega)⟩

/-- A request is answered in the same way, whether winners are remembered or kept forever. -/
theorem simulates_serve (children : List (Child σ)) (req : Request) :
    Simulates (Mirrors ttl children.length) (Mirrors ttl children.length)
      (serve stageAccess ttl (cast 0 children) req) (Lasting.serve ttl (cast 0 children) req) := by
  intro s t h
  have hsearch (tried : Option Nat) :
      Simulates (MirrorsWithout ttl children.length req.reference) (Mirrors ttl children.length)
        (search stageAccess ttl req.reference tried req 0 none (cast 0 children))
        (Lasting.search req.reference tried req 0 none (cast 0 children)) :=
    simulates_search tried req children 0 none (Nat.zero_add _)
  simp only [serve, Lasting.serve, Play.bind_apply, Play.get_apply, winner?_stage,
    Option.bind_some]
  by_cases httl : ttl = 0
  · obtain ⟨hnone, h⟩ := h.winner?_of_eq_zero httl
    simp only [if_pos httl]
    rw [hnone]
    exact hsearch none s t h
  · simp only [if_neg httl]
    cases hw : s.memory.winner? ttl s.now req.reference with
    | none =>
      obtain ⟨hnone, h⟩ := h.winner?_of_none hw
      rw [hnone]
      exact hsearch none _ t h
    | some index =>
      obtain ⟨hsome, hi⟩ := h.winner?_of_some hw
      simp only [hsome, Option.bind_some, getElem?_cast, List.getElem?_eq_getElem hi,
        Option.map_some, Nat.zero_add]
      refine Simulates.bind (Simulates.invoke _ index req (fun _ _ h => h) fun _ _ h =>
        h.answered index) (fun res => ?_) s t h
      split
      · exact .bind (.modify fun _ _ h => h.forget req.reference) fun _ => hsearch _
      · split
        · exact .bind (.modify fun _ _ h => (h.forget req.reference).1) fun _ =>
            .pure res fun _ _ h => h
        · exact .pure res fun _ _ h => h

variable {turns : List Turn} {children : List (Child σ)}

theorem simulates_attend (req : Request) :
    Simulates (Mirrors ttl children.length) (Mirrors ttl children.length)
      ((remembering ttl).attend children req) ((lasting ttl).attend children req) := by
  refine .bind (Q := Mirrors ttl children.length)
    (.modify fun _ _ h => { h with invoked := rfl }) fun _ => ?_
  refine .bind (simulates_serve children req) fun res => ?_
  intro s t h
  exact .some ⟨by simp only [h.invoked], h⟩

/-- A turn does the same, whether winners are remembered or kept forever. -/
theorem simulates_perform (turn : Turn) :
    Simulates (Mirrors ttl children.length) (Mirrors ttl children.length)
      ((remembering ttl).perform children turn) ((lasting ttl).perform children turn) := by
  cases turn with
  | request req => exact .bind (simulates_attend req) fun _ => .pure _ fun _ _ h => h
  | wait span =>
    exact .bind (.modify fun _ _ h => h.wait span) fun _ => .pure none fun _ _ h => h
  | invalidate reference =>
    exact .bind (.modify fun _ _ h => (h.forget reference).1) fun _ => .pure none fun _ _ h => h
  | clear => exact .bind (.modify fun _ _ h => h.clear) fun _ => .pure none fun _ _ h => h

/-- Turns do the same, whether winners are remembered or kept forever. -/
theorem simulates_play (turns : List Turn) :
    Simulates (Mirrors ttl children.length) (Mirrors ttl children.length)
      ((remembering ttl).play children turns) ((lasting ttl).play children turns) := by
  induction turns with
  | nil => exact .pure [] fun _ _ h => h
  | cons turn rest ih =>
    exact .bind (simulates_perform turn) fun _ => .bind ih fun _ => .pure _ fun _ _ h => h

/-- What can be observed of turns: the requests that were served, with the handlers that were invoked
and the responses, and the time and the state of the handlers afterwards. -/
def outcome {μ : Type} (p : List Served × Stage μ σ) : List Served × Time × σ :=
  (p.1, p.2.now, p.2.state)

/-- Nothing but time makes a chain forget winners that one which keeps them forever has, and that
can't be observed. -/
theorem expiry_unobservable (ttl : Duration) (children : List (Child σ)) (turns : List Turn)
    (now : Time) (state : σ) :
    ((remembering ttl).play children turns ⟨now, {}, state, []⟩).map outcome =
      ((lasting ttl).play children turns ⟨now, Lasting.empty, state, []⟩).map outcome := by
  have hstart : Mirrors ttl children.length ⟨now, {}, state, []⟩ ⟨now, Lasting.empty, state, []⟩ :=
    .start now state
  have h := simulates_play turns _ _ hstart
  generalize (remembering ttl).play children turns _ = a,
    (lasting ttl).play children turns _ = b at h ⊢
  cases h with
  | none => rfl
  | @some a b h =>
    obtain ⟨hserved, h⟩ := h
    simp only [Option.map_some, outcome, hserved, h.now, h.state]

end RequestRouting.Chain
