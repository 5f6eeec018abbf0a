import Mathlib.Data.List.Nodup
import RequestRouting.Proofs.Chain.Memory
import RequestRouting.Proofs.Serving

/-!
# What a chain offers a request to

A chain offers a request to its handlers one after another: to the remembered winner first, unless it
expired, and then to all others in order. It stops at the first answer that isn't 404. Here a chain
serves a request while every offer that it makes is written down, which makes no difference to how
the request is served. Handlers may change the world in any way, including what the chain itself
remembers, which they do if they call back into it.
-/

namespace RequestRouting.Chain

open Serving (chainAccess memory)

/-- An offer of a request to the handler at an index, with its answer. -/
structure Offer where
  index : Nat
  req : Request
  res : Response

/-- Serving while offers are written down. -/
abbrev Noting := StateT (List Offer) Serving

namespace Noting

variable {α β : Type}

@[simp] theorem bind_apply (x : Noting α) (f : α → Noting β) (log : List Offer) (w : World) :
    (x >>= f) log w = (x log w).bind fun p => f p.1.1 p.1.2 p.2 := rfl

@[simp] theorem pure_apply (a : α) (log : List Offer) (w : World) :
    (pure a : Noting α) log w = some ((a, log), w) := rfl

/-- Serving without writing anything down. -/
def quietly (x : Serving α) : Noting α := fun log w => (x w).map fun p => ((p.1, log), p.2)

@[simp] theorem quietly_apply (x : Serving α) (log : List Offer) (w : World) :
    quietly x log w = (x w).map fun p => ((p.1, log), p.2) := rfl

/-- Whether what is written down makes no difference. -/
def Forgets (x : Noting α) (y : Serving α) : Prop :=
  ∀ log w, (x log w).map (fun p => (p.1.1, p.2)) = y w

theorem forgets_pure (a : α) : Forgets (pure a) (pure a) := fun _ _ => rfl

theorem forgets_quietly (x : Serving α) : Forgets (quietly x) x := by
  intro log w
  simp [Option.map_map, Function.comp_def]

theorem Forgets.bind {x : Noting α} {y : Serving α} {f : α → Noting β} {g : α → Serving β}
    (h : Forgets x y) (h' : ∀ a, Forgets (f a) (g a)) : Forgets (x >>= f) (y >>= g) := by
  intro log w
  rw [bind_apply, Serving.bind_apply, ← h log w, Option.map_bind, Option.bind_map]
  exact Option.bind_congr fun p _ => h' p.1.1 p.1.2 p.2

end Noting

open Noting (Forgets quietly forgets_pure forgets_quietly)

/-- Access to what a chain remembers, of which nothing is written down. -/
def quietAccess (place : Nat) : Access Noting where
  now := quietly (chainAccess place).now
  read := quietly (chainAccess place).read
  update change := quietly ((chainAccess place).update change)

@[simp] theorem quietAccess_now (place : Nat) (log : List Offer) (w : World) :
    (quietAccess place).now log w = some ((w.now, log), w) := rfl

@[simp] theorem quietAccess_read (place : Nat) (log : List Offer) (w : World) :
    (quietAccess place).read log w = some ((memory w place, log), w) := rfl

@[simp] theorem quietAccess_update (place : Nat) (change : Cache → Cache) (log : List Offer)
    (w : World) : (quietAccess place).update change log w =
      some (((), log), { w with chains := w.chains.modify place change }) := rfl

/-- Offers a request to the handler at an index. -/
def offer (index : Nat) (handler : Request → Serving Response) (req : Request) : Noting Response :=
  fun log w => (handler req w).map fun p => ((p.1, log ++ [⟨index, req, p.1⟩]), p.2)

/-- The ways a request is offered to handlers, the first of which has the given index. -/
def offers : Nat → List (Request → Serving Response) → List (Request → Noting Response)
  | _, [] => []
  | index, handler :: rest => offer index handler :: offers (index + 1) rest

/-- A chain serves a request, yielding the answer and the offers that were made for it. -/
def serveNoting (place : Nat) (ttl : Duration) (handlers : List (Request → Serving Response))
    (req : Request) : Serving (Response × List Offer) :=
  serve (quietAccess place) ttl (offers 0 handlers) req []

variable {place : Nat} {ttl : Duration} {handlers : List (Request → Serving Response)}
  {req : Request} {res : Response} {reference : String} {tried winner : Option Nat}
  {log : List Offer} {order : List Nat} {w w' : World}

theorem getElem?_offers (first index : Nat) (handlers : List (Request → Serving Response)) :
    (offers first handlers)[index]? = (handlers[index]?).map (offer (first + index)) := by
  induction handlers generalizing first index with
  | nil => rfl
  | cons handler rest ih =>
    cases index with
    | zero => rfl
    | succ index =>
      simp only [offers, List.getElem?_cons_succ, ih]
      rw [Nat.add_right_comm, Nat.add_assoc]

section Forgetting

theorem forgets_now : Forgets (quietAccess place).now (chainAccess place).now :=
  forgets_quietly (chainAccess place).now

theorem forgets_read : Forgets (quietAccess place).read (chainAccess place).read :=
  forgets_quietly (chainAccess place).read

theorem forgets_update (change : Cache → Cache) :
    Forgets ((quietAccess place).update change) ((chainAccess place).update change) :=
  forgets_quietly ((chainAccess place).update change)

theorem forgets_offer (index : Nat) (handler : Request → Serving Response) (req : Request) :
    Forgets (offer index handler req) (handler req) := by
  intro log w
  simp [offer, Option.map_map, Function.comp_def]

theorem forgets_search (index : Nat) (last : Option Response) :
    Forgets (search (quietAccess place) ttl reference tried req index last (offers index handlers))
      (search (chainAccess place) ttl reference tried req index last handlers) := by
  induction handlers generalizing index last with
  | nil => exact forgets_pure _
  | cons handler rest ih =>
    simp only [offers, search]
    split
    · exact ih _ _
    · refine (forgets_offer index handler req).bind fun res => ?_
      split
      · exact ih _ _
      · split
        · exact forgets_now.bind fun now => (forgets_update _).bind fun _ => forgets_pure _
        · exact forgets_pure _

theorem forgets_winner? :
    Forgets (winner? (quietAccess place) ttl reference)
      (winner? (chainAccess place) ttl reference) := by
  unfold winner?
  split
  · exact forgets_pure _
  · refine forgets_read.bind fun cache => forgets_now.bind fun now => ?_
    split
    · exact forgets_pure _
    · exact (forgets_update _).bind fun _ => forgets_pure _

theorem forgets_serve :
    Forgets (serve (quietAccess place) ttl (offers 0 handlers) req)
      (serve (chainAccess place) ttl handlers req) := by
  refine forgets_winner?.bind fun winner => ?_
  cases winner with
  | none => exact forgets_search 0 none
  | some index =>
    simp only [Option.bind_some, getElem?_offers]
    cases handlers[index]? with
    | none => exact forgets_search 0 none
    | some handler =>
      refine (forgets_offer _ handler req).bind fun res => ?_
      split
      · exact (forgets_update _).bind fun _ => forgets_search 0 none
      · split
        · exact (forgets_update _).bind fun _ => forgets_pure _
        · exact forgets_pure _

end Forgetting

section Order

/-- What comes of offering a request in an order: it's over with the first answer that isn't 404, or
when nothing is left. -/
inductive Settles (req : Request) : List Nat → List Offer → Response → Prop where
  | exhausted {res : Response} (h : res.status = .notFound) : Settles req [] [] res
  | answered (index : Nat) {res : Response} (rest : List Nat) (h : res.status ≠ .notFound) :
      Settles req (index :: rest) [⟨index, req, res⟩] res
  | passed (index : Nat) {other res : Response} {rest : List Nat} {log : List Offer}
      (h : other.status = .notFound) (hr : Settles req rest log res) :
      Settles req (index :: rest) (⟨index, req, other⟩ :: log) res

namespace Settles

theorem index_prefix (h : Settles req order log res) : log.map (·.index) <+: order := by
  induction h with
  | exhausted => exact List.nil_prefix
  | answered index rest => exact List.prefix_append [index] rest
  | passed index _ _ ih => exact (List.prefix_cons_inj index).mpr ih

theorem req_eq (h : Settles req order log res) : ∀ x ∈ log, x.req = req := by
  induction h with
  | exhausted => simp
  | answered => simp
  | passed _ _ _ ih => simpa using ih

/-- Nothing is offered after an answer that isn't 404, which is the response. -/
theorem answer (h : Settles req order log res) :
    ∀ x ∈ log, x.res.status ≠ .notFound → log.getLast? = some x ∧ res = x.res := by
  induction h with
  | exhausted => simp
  | answered => simp
  | @passed index other res rest log hother hr ih =>
    intro x hx hn
    rcases List.mem_cons.mp hx with rfl | hx
    · exact absurd hother hn
    · obtain ⟨hlast, hres⟩ := ih x hx hn
      exact ⟨by rw [List.getLast?_cons, hlast, Option.getD_some], hres⟩

/-- A response that isn't 404 is an answer. -/
theorem exists_answer (h : Settles req order log res) (hn : res.status ≠ .notFound) :
    ∃ x ∈ log, x.res = res := by
  induction h with
  | exhausted h => exact absurd h hn
  | answered => exact ⟨_, List.mem_singleton_self _, rfl⟩
  | passed _ _ _ ih =>
    obtain ⟨x, hx, hres⟩ := ih hn
    exact ⟨x, List.mem_cons_of_mem _ hx, hres⟩

/-- Nothing is left out before the response is 404. -/
theorem all_passed (h : Settles req order log res) (hn : res.status = .notFound) :
    log.map (·.index) = order ∧ ∀ x ∈ log, x.res.status = .notFound := by
  induction h with
  | exhausted => simp
  | answered _ _ h => exact absurd hn h
  | passed _ hother _ ih =>
    obtain ⟨hmap, hall⟩ := ih hn
    exact ⟨by rw [List.map_cons, hmap], List.forall_mem_cons.mpr ⟨hother, hall⟩⟩

end Settles

/-- The order in which handlers are tried: a winner first, then all others in order. -/
def trials (winner : Option Nat) (size : Nat) : List Nat :=
  winner.toList ++ (List.range size).filter (winner ≠ some ·)

theorem nodup_trials (winner : Option Nat) (size : Nat) : (trials winner size).Nodup := by
  have hrest : ((List.range size).filter (winner ≠ some ·)).Nodup := List.nodup_range.filter _
  cases winner with
  | none => exact hrest
  | some index => exact List.nodup_cons.mpr ⟨by simp, hrest⟩

theorem mem_trials {index : Nat} (hw : ∀ i, winner = some i → i < size) :
    index ∈ trials winner size ↔ index < size := by
  simp only [trials, List.mem_append, Option.mem_toList, List.mem_filter, List.mem_range,
    decide_eq_true_eq]
  constructor
  · rintro (h | ⟨h, -⟩)
    · exact hw index h
    · exact h
  · intro h
    by_cases hi : winner = some index
    · exact Or.inl hi
    · exact Or.inr ⟨h, hi⟩

end Order

section Serving

/-- The remembered winner for a request, unless it expired. -/
def live? (place : Nat) (ttl : Duration) (req : Request) (w : World) : Option Nat :=
  if ttl = 0 then none else (memory w place).winner? ttl w.now req.reference

theorem winner?_quiet (place : Nat) (ttl : Duration) (req : Request) (log : List Offer) (w : World) :
    ∃ w', winner? (quietAccess place) ttl req.reference log w =
      some ((live? place ttl req w, log), w') := by
  unfold winner? live?
  split
  · exact ⟨w, rfl⟩
  · cases h : (memory w place).winner? ttl w.now req.reference with
    | none => exact ⟨_, by simp [h]; rfl⟩
    | some index => exact ⟨w, by simp [h]⟩

/-- A search offers a request to the handlers from an index on, leaving out the one that was tried. -/
theorem settles_search {index : Nat} {last : Option Response} {all : List Offer}
    (hl : ∀ r, last = some r → r.status = .notFound)
    (h : search (quietAccess place) ttl reference tried req index last (offers index handlers) log w =
      some ((res, all), w')) :
    ∃ new, all = log ++ new ∧
      Settles req ((List.range' index handlers.length).filter (tried ≠ some ·)) new res := by
  induction handlers generalizing index last log w with
  | nil =>
    obtain ⟨⟨rfl, rfl⟩, rfl⟩ : (last.getD (.ofStatus .notFound) = res ∧ log = all) ∧ w = w' := by
      simpa [offers, search] using h
    refine ⟨[], by simp, .exhausted ?_⟩
    cases last with
    | none => rfl
    | some r => exact hl r rfl
  | cons handler rest ih =>
    rw [offers, search] at h
    rw [List.length_cons, List.range'_succ]
    split at h
    · rename_i ht
      rw [List.filter_cons_of_neg (by simpa using ht)]
      exact ih hl h
    · rename_i ht
      rw [List.filter_cons_of_pos (by simpa using ht)]
      simp only [Noting.bind_apply, offer] at h
      cases hr : handler req w with
      | none => simp [hr] at h
      | some answer =>
        obtain ⟨r, w₁⟩ := answer
        simp only [hr, Option.map_some, Option.bind_some] at h
        split at h
        · rename_i hn
          obtain ⟨new, rfl, hnew⟩ := ih (by rintro _ ⟨rfl⟩; exact hn) h
          exact ⟨⟨index, req, r⟩ :: new, by simp, .passed index hn hnew⟩
        · rename_i hn
          obtain ⟨rfl, rfl⟩ : r = res ∧ log ++ [⟨index, req, r⟩] = all := by
            split at h
            all_goals
              simp only [Noting.bind_apply, quietAccess_now, quietAccess_update, Noting.pure_apply,
                Option.bind_some, Option.some.injEq, Prod.mk.injEq] at h
              exact h.1
          exact ⟨_, rfl, .answered index _ hn⟩

/-- A request is offered to the live winner first, and then to all others in order. -/
theorem settles_serve (hw : ∀ index, live? place ttl req w = some index → index < handlers.length)
    (h : serveNoting place ttl handlers req w = some ((res, log), w')) :
    Settles req (trials (live? place ttl req w) handlers.length) log res := by
  obtain ⟨w₁, hwinner⟩ := winner?_quiet place ttl req [] w
  simp only [serveNoting, serve, Noting.bind_apply, hwinner, Option.bind_some] at h
  cases hl : live? place ttl req w with
  | none =>
    simp only [hl, Option.bind_none] at h
    obtain ⟨new, rfl, hnew⟩ := settles_search (by simp) h
    simpa [trials, List.range_eq_range'] using hnew
  | some index =>
    have hi := hw index hl
    simp only [hl, Option.bind_some, getElem?_offers, List.getElem?_eq_getElem hi, Option.map_some,
      Nat.zero_add, Noting.bind_apply, offer] at h
    cases hr : handlers[index] req w₁ with
    | none => simp [hr] at h
    | some answer =>
      obtain ⟨r, w₂⟩ := answer
      simp only [hr, Option.map_some, Option.bind_some, List.nil_append] at h
      split at h
      · rename_i hn
        simp only [Noting.bind_apply, quietAccess_update, Option.bind_some] at h
        obtain ⟨new, rfl, hnew⟩ := settles_search (by simp) h
        rw [← List.range_eq_range'] at hnew
        exact .passed index hn hnew
      · rename_i hn
        obtain ⟨rfl, rfl⟩ : r = res ∧ [⟨index, req, r⟩] = log := by
          split at h
          all_goals
            simp only [Noting.bind_apply, quietAccess_update, Noting.pure_apply, Option.bind_some,
              Option.some.injEq, Prod.mk.injEq] at h
            exact h.1
        exact .answered index _ hn

/-- A search comes to an end if all handlers answer. -/
theorem exists_search {index : Nat} {last : Option Response}
    (h : ∀ handler ∈ handlers, ∀ w, ∃ answer, handler req w = some answer) (w : World) :
    ∃ answer, search (chainAccess place) ttl reference tried req index last handlers w =
      some answer := by
  induction handlers generalizing index last w with
  | nil => exact ⟨_, rfl⟩
  | cons handler rest ih =>
    obtain ⟨hhandler, hrest⟩ := List.forall_mem_cons.mp h
    obtain ⟨⟨r, w₁⟩, hr⟩ := hhandler w
    rw [search]
    split
    · exact ih hrest w
    · simp only [Serving.bind_apply, hr, Option.bind_some]
      split
      · exact ih hrest w₁
      · split
        · exact ⟨_, rfl⟩
        · exact ⟨_, rfl⟩

/-- A request is answered if all handlers answer it. -/
theorem exists_serve (h : ∀ handler ∈ handlers, ∀ w, ∃ answer, handler req w = some answer)
    (w : World) : ∃ answer, serve (chainAccess place) ttl handlers req w = some answer := by
  obtain ⟨winner, w₁, hw⟩ : ∃ winner w₁, winner? (chainAccess place) ttl req.reference w =
      some (winner, w₁) := by
    obtain ⟨w₁, hw⟩ := winner?_quiet place ttl req [] w
    refine ⟨live? place ttl req w, w₁, ?_⟩
    rw [← forgets_winner? [] w, hw, Option.map_some]
  simp only [serve, Serving.bind_apply, hw, Option.bind_some]
  cases hh : winner.bind (handlers[·]?) with
  | none => exact exists_search h w₁
  | some handler =>
    obtain ⟨index, -, hi⟩ := Option.bind_eq_some_iff.mp hh
    obtain ⟨⟨r, w₂⟩, hr⟩ := h handler (List.mem_of_getElem? hi) w₁
    simp only [Serving.bind_apply, hr, Option.bind_some]
    split
    · exact exists_search h _
    · split
      · exact ⟨_, rfl⟩
      · exact ⟨_, rfl⟩

/-- A chain offers a request to each handler at most once, and gives up only after all of them. While
a request is served, which isn't different for writing down the offers that are made, it's offered to
the live winner first, if there is one, and then to the others in order. It's over with the first
answer that isn't 404, which is the response as it is. The response is 404 only if each handler was
offered the request once and answered 404. If all handlers answer, so does the chain. -/
theorem offers_each_once (place : Nat) (ttl : Duration)
    (handlers : List (Request → Serving Response)) (req : Request) (w : World)
    (hw : ∀ entry ∈ (memory w place).winners.entries, entry.2.1 < handlers.length) :
    ((serveNoting place ttl handlers req w).map fun p => (p.1.1, p.2)) =
      serve (chainAccess place) ttl handlers req w ∧
    ((∀ handler ∈ handlers, ∀ w, ∃ answer, handler req w = some answer) →
      ∃ answer, serve (chainAccess place) ttl handlers req w = some answer) ∧
    ∀ res log w', serveNoting place ttl handlers req w = some ((res, log), w') →
      let order := trials (live? place ttl req w) handlers.length
      (∀ index, index ∈ order ↔ index < handlers.length) ∧
      (log.map (·.index)).Nodup ∧ log.map (·.index) <+: order ∧ (∀ x ∈ log, x.req = req) ∧
      (∀ x ∈ log, x.res.status ≠ .notFound → log.getLast? = some x ∧ res = x.res) ∧
      (res.status ≠ .notFound → ∃ x ∈ log, x.res = res) ∧
      (res.status = .notFound → log.map (·.index) = order ∧ ∀ x ∈ log, x.res.status = .notFound) := by
  have hlive (index : Nat) (h : live? place ttl req w = some index) : index < handlers.length := by
    unfold live? at h
    split at h
    · cases h
    · obtain ⟨since, he, -⟩ := exists_of_winner? h
      exact hw _ he
  refine ⟨forgets_serve [] w, fun hall => exists_serve hall w, fun res log w' h => ?_⟩
  have hs := settles_serve hlive h
  exact ⟨fun _ => mem_trials hlive, hs.index_prefix.sublist.nodup (nodup_trials _ _),
    hs.index_prefix, hs.req_eq, hs.answer, hs.exists_answer, hs.all_passed⟩

/-- Three handlers, the second of which makes the chain forget what it remembers. -/
def fallbacks : List (Request → Serving Response) :=
  [fun _ => return .ofStatus .notFound,
    fun _ => do
      (chainAccess 0).update (·.clear)
      return .ofStatus .ok,
    fun _ => return .ofStatus .notFound]

/-- A chain that remembers the last of three handlers. -/
def remembersLast : World := { chains := #[{ winners := ⟨[("/", 2, 0)]⟩, inserts := 1 }] }

/-- The last handler stopped handling, so the others are tried. -/
theorem offers_each_once_fallbacks :
    (∀ entry ∈ (memory remembersLast 0).winners.entries, entry.2.1 < fallbacks.length) ∧
    live? 0 60 {} remembersLast = some 2 ∧
    ∃ res log w', serveNoting 0 60 fallbacks {} remembersLast = some ((res, log), w') ∧
      serve (chainAccess 0) 60 fallbacks {} remembersLast = some (res, w') ∧
      log.map (·.index) = [2, 0, 1] ∧ (log.map (·.index)).Nodup ∧
      log.map (·.index) <+: trials (some 2) 3 ∧ ∃ x ∈ log, x.res = res := by
  have hw : ∀ entry ∈ (memory remembersLast 0).winners.entries,
      entry.2.1 < fallbacks.length := by decide
  obtain ⟨hserve, -, hlog⟩ := offers_each_once 0 60 fallbacks {} remembersLast hw
  obtain ⟨log, w', hnoting, hindex⟩ : ∃ log w',
      serveNoting 0 60 fallbacks {} remembersLast = some ((.ofStatus .ok, log), w') ∧
        log.map (·.index) = [2, 0, 1] := ⟨_, _, rfl, rfl⟩
  obtain ⟨-, hnodup, hprefix, -, -, hanswer, -⟩ := hlog _ _ _ hnoting
  refine ⟨hw, by decide, _, log, w', hnoting, ?_, hindex, hnodup, hprefix, hanswer (by decide)⟩
  rw [← hserve, hnoting, Option.map_some]

end Serving

end RequestRouting.Chain
