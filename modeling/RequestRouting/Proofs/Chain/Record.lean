import RequestRouting.Proofs.Chain.Isolation
import RequestRouting.Proofs.Chain.Memory

/-!
# What is remembered is what happened last

Whatever a chain remembers for a reference, the last request for that reference was answered by the
remembered handler, and neither by 404 nor by a server error. Requests for other references, time
and forgetting make no difference to that, and a request for the reference itself either ends in a
new winner, leaves the one that just answered, or leaves none.
-/

namespace RequestRouting.Chain

/-- The last request for a reference. -/
def latest? (reference : String) (history : List Served) : Option Served :=
  history.reverse.find? (·.req.reference = reference)

theorem latest?_concat (reference : String) (history : List Served) (x : Served) :
    latest? reference (history ++ [x]) =
      if x.req.reference = reference then some x else latest? reference history := by
  simp only [latest?, List.reverse_append, List.reverse_singleton, List.singleton_append,
    List.find?_cons]
  by_cases h : x.req.reference = reference <;> simp [h]

/-- Whether the handler at an index answered, as the last one that was asked, and in a way that is
remembered. -/
structure Wins (index : Nat) (invoked : List Invocation) (res : Response) : Prop where
  last : invoked.getLast? = some ⟨index, res⟩
  found : res.status ≠ .notFound
  sound : res.status.isServerError = false

theorem Wins.index_unique {i j : Nat} {invoked : List Invocation} {res : Response}
    (hi : Wins i invoked res) (hj : Wins j invoked res) : i = j := by
  have h := hi.last.symm.trans hj.last
  simp only [Option.some.injEq, Invocation.mk.injEq, and_true] at h
  exact h

/-- Every remembered winner is one of the handlers, and answered the last request for its
reference. -/
def Recorded (ttl : Duration) (size : Nat) (history : List Served) (c : Cache) : Prop :=
  ∀ entry ∈ c.winners.entries, 0 < ttl ∧ entry.2.1 < size ∧
    ∃ x, latest? entry.1 history = some x ∧ Wins entry.2.1 x.invoked x.res

namespace Recorded

variable {ttl : Duration} {size : Nat} {history : List Served} {c d : Cache}

theorem empty : Recorded ttl size [] {} := fun _ he => absurd he List.not_mem_nil

/-- Forgetting winners leaves none that didn't answer last. -/
theorem subset (h : Recorded ttl size history c)
    (hs : ∀ entry ∈ d.winners.entries, entry ∈ c.winners.entries) :
    Recorded ttl size history d := fun entry he => h entry (hs entry he)

/-- All that is remembered for one reference is the same handler. -/
theorem index_unique (h : Recorded ttl size history c) {a b : String × Nat × Time}
    (ha : a ∈ c.winners.entries) (hb : b ∈ c.winners.entries) (hr : a.1 = b.1) :
    a.2.1 = b.2.1 := by
  obtain ⟨-, -, x, hx, hwa⟩ := h a ha
  obtain ⟨-, -, y, hy, hwb⟩ := h b hb
  rw [hr, hy] at hx
  obtain rfl := Option.some.inj hx
  exact hwa.index_unique hwb

end Recorded

variable {σ : Type} {ttl : Duration} {reference : String} {req : Request} {res : Response}
  {s t : Stage Cache σ} {history : List Served}

/-- What a search adds to what is remembered is the handler that answered. -/
theorem mem_search {children : List (Child σ)} {tried : Option Nat} {index : Nat}
    {last : Option Response}
    (h : search stageAccess ttl reference tried req index last (cast index children) s =
      some (res, t)) {entry : String × Nat × Time} (he : entry ∈ t.memory.winners.entries) :
    entry ∈ s.memory.winners.entries ∨ entry.1 = reference ∧ 0 < ttl ∧
      entry.2.1 < index + children.length ∧ Wins entry.2.1 t.invoked res := by
  induction children generalizing index last s with
  | nil =>
    obtain ⟨-, rfl⟩ := Prod.mk.inj (Option.some.inj h)
    exact Or.inl he
  | cons child rest ih =>
    have hlength : index + 1 + rest.length = index + (child :: rest).length := by
      rw [List.length_cons]
      omega
    rw [cast, search] at h
    split at h
    · rw [← hlength]
      exact ih h
    · simp only [Play.bind_apply, Child.invoke] at h
      cases hc : child req s.now s.state with
      | none => simp [hc] at h
      | some answer =>
        obtain ⟨r, took, state⟩ := answer
        simp only [hc, Option.map_some, Option.bind_some] at h
        split at h
        · -- The search goes on, and nothing was remembered yet.
          rw [← hlength]
          have hrest := ih h
          exact hrest
        · rename_i hn
          split at h
          · rename_i hr
            simp only [ne_eq, Bool.and_eq_true, decide_eq_true_eq, Bool.not_eq_true'] at hr
            simp only [Play.bind_apply, stageAccess_now, stageAccess_update, Play.pure_apply,
              Option.bind_some, Option.some.injEq, Prod.mk.injEq] at h
            obtain ⟨rfl, rfl⟩ := h
            rcases mem_of_mem_remember he with rfl | he
            · refine Or.inr ⟨rfl, Nat.pos_of_ne_zero hr.1, ?_, ?_, hn, hr.2⟩
              · rw [List.length_cons]
                dsimp only
                omega
              · simp [Stage.answered]
            · exact Or.inl he
          · simp only [Play.pure_apply, Option.some.injEq, Prod.mk.injEq] at h
            obtain ⟨-, rfl⟩ := h
            exact Or.inl he

/-- After a request, what is remembered for its reference is the handler that answered, and for
other references what was remembered before. -/
theorem mem_serve {children : List (Child σ)} (hs : Recorded ttl children.length history s.memory)
    (h : serve stageAccess ttl (cast 0 children) req s = some (res, t))
    {entry : String × Nat × Time} (he : entry ∈ t.memory.winners.entries) :
    entry ∈ s.memory.winners.entries ∧ entry.1 ≠ req.reference ∨
      entry.1 = req.reference ∧ 0 < ttl ∧ entry.2.1 < children.length ∧
        Wins entry.2.1 t.invoked res := by
  have hsearch {tried : Option Nat} {s' : Stage Cache σ}
      (hforgot : ∀ e ∈ s'.memory.winners.entries,
        e ∈ s.memory.winners.entries ∧ e.1 ≠ req.reference)
      (h : search stageAccess ttl req.reference tried req 0 none (cast 0 children) s' =
        some (res, t)) := by
    have hm := mem_search h he
    rw [Nat.zero_add] at hm
    exact hm.imp_left (hforgot entry)
  simp only [serve, Play.bind_apply, winner?_stage, Option.bind_some] at h
  by_cases httl : ttl = 0
  · rw [if_pos httl] at h
    refine hsearch (fun e hm => ?_) h
    exact absurd httl (Nat.ne_of_gt (hs e hm).1)
  · rw [if_neg httl] at h
    cases hw : s.memory.winner? ttl s.now req.reference with
    | none =>
      simp only [hw, Option.bind_none] at h
      exact hsearch (fun e hm => mem_forget.mp hm) h
    | some index =>
      obtain ⟨since, hm, -⟩ := exists_of_winner? hw
      have hi : index < children.length := (hs _ hm).2.1
      simp only [hw, Option.bind_some, getElem?_cast, List.getElem?_eq_getElem hi,
        Option.map_some, Nat.zero_add, Play.bind_apply, Child.invoke] at h
      cases hc : children[index] req s.now s.state with
      | none => simp [hc] at h
      | some answer =>
        obtain ⟨r, took, state⟩ := answer
        simp only [hc, Option.map_some, Option.bind_some] at h
        split at h
        · simp only [Play.bind_apply, stageAccess_update, Option.bind_some] at h
          exact hsearch (fun e hm => mem_forget.mp hm) h
        · rename_i hn
          split at h
          · simp only [Play.bind_apply, stageAccess_update, Play.pure_apply, Option.bind_some,
              Option.some.injEq, Prod.mk.injEq] at h
            obtain ⟨-, rfl⟩ := h
            exact Or.inl (mem_forget.mp he)
          · rename_i hr
            simp only [Play.pure_apply, Option.some.injEq, Prod.mk.injEq] at h
            obtain ⟨rfl, rfl⟩ := h
            by_cases hreq : entry.1 = req.reference
            · obtain rfl : entry.2.1 = index := hs.index_unique he hm hreq
              refine Or.inr ⟨hreq, Nat.pos_of_ne_zero httl, hi, ?_, hn, ?_⟩
              · simp [Stage.answered]
              · simpa using hr
            · exact Or.inl ⟨he, hreq⟩

/-- A request that's served leaves what is remembered in accordance with what happened. -/
theorem Recorded.attend {children : List (Child σ)} {served : Served}
    (hs : Recorded ttl children.length history s.memory)
    (h : (remembering ttl).attend children req s = some (served, t)) :
    Recorded ttl children.length (history ++ [served]) t.memory := by
  simp only [Mechanism.attend, remembering, Play.bind_apply, Play.modify_apply, Play.get_apply,
    Play.pure_apply, Option.bind_some, Option.bind_eq_some_iff, Option.some.injEq,
    Prod.mk.injEq, Prod.exists] at h
  obtain ⟨res, t, hserve, rfl, rfl⟩ := h
  intro entry he
  rw [latest?_concat]
  rcases mem_serve (s := { s with invoked := [] }) hs hserve he with ⟨he, hne⟩ | ⟨heq, hwon⟩
  · rw [if_neg (Ne.symm hne)]
    exact hs entry he
  · rw [if_pos heq.symm]
    exact ⟨hwon.1, hwon.2.1, _, rfl, hwon.2.2⟩

/-- A turn leaves what is remembered in accordance with what happened. -/
theorem Recorded.perform {children : List (Child σ)} {turn : Turn} {served : Option Served}
    (hs : Recorded ttl children.length history s.memory)
    (h : (remembering ttl).perform children turn s = some (served, t)) :
    Recorded ttl children.length (history ++ served.toList) t.memory := by
  cases turn with
  | request req =>
    simp only [Mechanism.perform, Play.bind_apply, Play.pure_apply, Option.bind_eq_some_iff,
      Option.some.injEq, Prod.mk.injEq, Prod.exists] at h
    obtain ⟨served, t, hattend, rfl, rfl⟩ := h
    exact hs.attend hattend
  | wait span =>
    obtain ⟨rfl, rfl⟩ := Prod.mk.inj (Option.some.inj h)
    rw [Option.toList_none, List.append_nil]
    exact hs
  | invalidate reference =>
    obtain ⟨rfl, rfl⟩ := Prod.mk.inj (Option.some.inj h)
    rw [Option.toList_none, List.append_nil]
    exact hs.subset fun entry he => (mem_forget.mp he).1
  | clear =>
    obtain ⟨rfl, rfl⟩ := Prod.mk.inj (Option.some.inj h)
    rw [Option.toList_none, List.append_nil]
    exact hs.subset fun entry he => absurd he mem_clear

/-- Turns leave what is remembered in accordance with what happened. -/
theorem Recorded.play {children : List (Child σ)} {turns : List Turn} {served : List Served}
    (hs : Recorded ttl children.length history s.memory)
    (h : (remembering ttl).play children turns s = some (served, t)) :
    Recorded ttl children.length (history ++ served) t.memory := by
  induction turns generalizing s history served with
  | nil =>
    obtain ⟨rfl, rfl⟩ := Prod.mk.inj (Option.some.inj h)
    rw [List.append_nil]
    exact hs
  | cons turn rest ih =>
    simp only [Mechanism.play, Play.bind_apply, Play.pure_apply, Option.bind_eq_some_iff,
      Option.some.injEq, Prod.mk.injEq, Prod.exists] at h
    obtain ⟨first, s', hfirst, later, t, hlater, rfl, rfl⟩ := h
    rw [← List.append_assoc]
    exact ih (hs.perform hfirst) hlater

/-- Whatever happened to a chain, a remembered winner is one of its handlers, and the last request
for its reference was answered by that handler, and neither by 404 nor by a server error. -/
theorem remembered_answered_last {children : List (Child σ)} {turns : List Turn} {now : Time}
    {state : σ} (h : (remembering ttl).play children turns ⟨now, {}, state, []⟩ = some (history, s))
    {index : Nat} {since : Time} (hw : s.memory.winners.get? reference = some (index, since)) :
    0 < ttl ∧ index < children.length ∧
      ∃ x, latest? reference history = some x ∧ Wins index x.invoked x.res := by
  have hr := Recorded.empty.play h
  rw [List.nil_append] at hr
  exact hr _ (Keyed.mem_of_find? hw)

/-- A handler that takes a millisecond to answer with a status. -/
def ofStatus (status : Status) : Child Unit := fun _ _ _ =>
  some (.ofStatus status, Time.millisecond, ())

/-- A request that the first of two handlers leaves to the second one. -/
def passedOn : Served where
  req := {}
  invoked := [⟨0, .ofStatus .notFound⟩, ⟨1, .ofStatus .ok⟩]
  res := .ofStatus .ok

/-- Where the chain is after that, half a microsecond later. -/
def settled : Stage Cache Unit where
  now := 2 * Time.millisecond + 500
  memory := { winners := ⟨[("/", 1, 2 * Time.millisecond)]⟩, inserts := 1 }
  state := ()
  invoked := passedOn.invoked

/-- The second handler is remembered, and answered last. -/
theorem second_answered_last :
    (remembering 1000).play [ofStatus .notFound, ofStatus .ok] [.request {}, .wait 500]
      ⟨0, {}, (), []⟩ = some ([passedOn], settled) ∧
    settled.memory.winners.get? "/" = some (1, 2 * Time.millisecond) ∧
    0 < 1000 ∧ 1 < [ofStatus .notFound, ofStatus .ok].length ∧
    ∃ x, latest? "/" [passedOn] = some x ∧ Wins 1 x.invoked x.res := by
  have hplay : (remembering 1000).play [ofStatus .notFound, ofStatus .ok]
      [.request {}, .wait 500] ⟨0, {}, (), []⟩ = some ([passedOn], settled) := rfl
  have hw : settled.memory.winners.get? "/" = some (1, 2 * Time.millisecond) := by decide
  exact ⟨hplay, hw, remembered_answered_last hplay hw⟩

end RequestRouting.Chain
