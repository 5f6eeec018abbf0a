import Mathlib.Data.List.Forall2
import RequestRouting.Proofs.Chain.Memory
import RequestRouting.Proofs.Serving

/-!
# Remembering winners is transparent

A chain that remembers winners answers every request like one that searches from its first handler
each time, as long as it depends on the reference of a request alone which handlers leave it to
others. The invariant is that every winner a chain remembers is the one that a search finds.
Handlers may call back into the chain, so what it remembers may change while they run.
-/

namespace RequestRouting.Chain

open Serving (memory memory_modify memory_sleep)

/-- How a handler answers requests, and for which references it doesn't leave them to others. -/
structure Rule where
  answer : Request → Response
  applies : String → Bool
  answer_notFound : ∀ req, (answer req).status = .notFound ↔ applies req.reference = false

theorem Rule.status_ne (rule : Rule) {req : Request} (h : rule.applies req.reference = true) :
    (rule.answer req).status ≠ .notFound := by
  intro he
  rw [(rule.answer_notFound req).mp he] at h
  exact Bool.false_ne_true h

/-- The response of the first rule that applies, or else of the last rule, where `last` is the
response of the rule before. -/
def plainFrom (req : Request) : Option Response → List Rule → Response
  | last, [] => last.getD (.ofStatus .notFound)
  | _, rule :: rest =>
    if rule.applies req.reference then rule.answer req
    else plainFrom req (some (rule.answer req)) rest

/-- The place of the first rule that applies to a reference. -/
def winnerOf (rules : List Rule) (reference : String) : Option Nat :=
  rules.findIdx? (·.applies reference)

/-- Whether a handler answers by a rule. The chain at a place may change what it remembers while the
handler runs, as it does if the handler calls back into it. -/
def Follows (place : Nat) (winner : String → Option Nat) (rule : Rule)
    (handler : Request → Serving Response) : Prop :=
  ∀ req w, ∃ w', handler req w = some (rule.answer req, w') ∧
    Evolves winner (memory w place) (memory w' place)

/-- Whether a handler answers by a rule in all worlds that have a property, and keeps it. -/
def Obeys (inv : World → Prop) (rule : Rule) (handler : Request → Serving Response) : Prop :=
  ∀ req w, inv w → ∃ w', handler req w = some (rule.answer req, w') ∧ inv w'

/-- A property of worlds in which the chain at a place remembers winners of searches only, whatever
it goes on to remember of them. -/
structure Hosts (inv : World → Prop) (place : Nat) (winner : String → Option Nat) : Prop where
  sound : ∀ w, inv w → Sound winner (memory w place)
  change : ∀ w f, inv w → (∀ c, Evolves winner c (f c)) →
    inv { w with chains := w.chains.modify place f }

variable {place : Nat} {winner : String → Option Nat} {rule : Rule} {rules : List Rule}
  {handler : Request → Serving Response} {handlers : List (Request → Serving Response)}
  {inv : World → Prop}

/-- A change to what a chain remembers is one in the world, too, where it does nothing if there's no
such chain. -/
theorem evolves_update (w : World) {change : Cache → Cache} (h : ∀ c, Evolves winner c (change c)) :
    Evolves winner (memory w place)
      (memory { w with chains := w.chains.modify place change } place) := by
  rcases memory_modify w place change with he | he
  · rw [he]; exact h _
  · rw [he]; exact Evolves.refl

/-- What is remembered at a place is a property of worlds itself. -/
theorem hosts_sound (place : Nat) (winner : String → Option Nat) :
    Hosts (fun w => Sound winner (memory w place)) place winner where
  sound _ hs := hs
  change w _ hs hf := (evolves_update w hf).sound hs

theorem Follows.obeys (h : Follows place winner rule handler) :
    Obeys (fun w => Sound winner (memory w place)) rule handler := by
  intro req w hs
  obtain ⟨w', hrun, hmem⟩ := h req w
  exact ⟨w', hrun, hmem.sound hs⟩

/-- A search from a handler on, none before which applied. -/
theorem search_plain (hi : Hosts inv place (winnerOf rules)) (ttl : Duration) (req : Request)
    {done rest : List Rule} (hrules : rules = done ++ rest)
    (hdone : ∀ rule ∈ done, rule.applies req.reference = false)
    (h : List.Forall₂ (Obeys inv) rest handlers) (last : Option Response) (w : World)
    (hw : inv w) :
    ∃ w', search (Serving.chainAccess place) ttl req.reference none req done.length last handlers
          w = some (plainFrom req last rest, w') ∧ inv w' := by
  induction h generalizing done last w with
  | nil => exact ⟨w, rfl, hw⟩
  | @cons rule handler rest handlers hh _ ih =>
    obtain ⟨w₁, hrun, hw₁⟩ := hh req w hw
    simp only [search, reduceCtorEq, if_false, Serving.bind_apply, hrun, Option.bind_some,
      plainFrom]
    cases ha : rule.applies req.reference with
    | false =>
      have hs : (rule.answer req).status = .notFound := (rule.answer_notFound req).mpr ha
      have hdone' : ∀ r ∈ done ++ [rule], r.applies req.reference = false := by
        intro r hr
        rcases List.mem_append.mp hr with hr | hr
        · exact hdone r hr
        · rw [List.mem_singleton.mp hr]; exact ha
      obtain ⟨w₂, hrun₂, hw₂⟩ := ih (by simpa using hrules) hdone' (some (rule.answer req)) w₁ hw₁
      refine ⟨w₂, ?_, hw₂⟩
      simpa [hs] using hrun₂
    | true =>
      have hs : (rule.answer req).status ≠ .notFound := rule.status_ne ha
      have found : winnerOf rules req.reference = some done.length := by
        rw [winnerOf, hrules, List.findIdx?_append, List.findIdx?_eq_none_iff.mpr hdone]
        simp [List.findIdx?_cons, ha]
      simp only [hs, if_false, if_true]
      split
      · exact ⟨_, rfl, hi.change w₁ _ hw₁ fun c => .remember ttl w₁.now _ _ found .refl⟩
      · exact ⟨w₁, rfl, hw₁⟩

/-- The first rule that applies gives the plain response. -/
theorem plainFrom_eq_of_winner (req : Request) {index : Nat} (last : Option Response)
    (h : winnerOf rules req.reference = some index) :
    ∃ rule, rules[index]? = some rule ∧ rule.applies req.reference = true ∧
      plainFrom req last rules = rule.answer req := by
  induction rules generalizing index last with
  | nil => simp [winnerOf] at h
  | cons rule rest ih =>
    simp only [winnerOf, List.findIdx?_cons] at h
    cases ha : rule.applies req.reference with
    | true =>
      obtain rfl : 0 = index := by simpa [ha] using h
      exact ⟨rule, rfl, ha, by simp [plainFrom, ha]⟩
    | false =>
      simp only [ha, Bool.false_eq_true, if_false, Option.map_eq_some_iff] at h
      obtain ⟨i, hi, rfl⟩ := h
      obtain ⟨r, hr, happ, hp⟩ := ih (some (rule.answer req)) hi
      exact ⟨r, by simpa using hr, happ, by simpa [plainFrom, ha] using hp⟩

/-- There is a handler for every rule. -/
theorem exists_handler (h : List.Forall₂ (Obeys inv) rules handlers) {index : Nat}
    (hr : rules[index]? = some rule) :
    ∃ handler, handlers[index]? = some handler ∧ Obeys inv rule handler := by
  induction h generalizing index with
  | nil => simp at hr
  | cons hf _ ih =>
    cases index with
    | zero =>
      obtain rfl := Option.some.inj hr
      exact ⟨_, rfl, hf⟩
    | succ index => exact ih hr

/-- What is remembered for a reference, if anything still is, is the winner of a search. -/
theorem winner?_sound (hi : Hosts inv place winner) (ttl : Duration) (reference : String)
    (w : World) (hw : inv w) :
    ∃ found w', winner? (Serving.chainAccess place) ttl reference w = some (found, w') ∧
      inv w' ∧ ∀ index, found = some index → winner reference = some index := by
  by_cases ht : ttl = 0
  · exact ⟨none, w, by simp [winner?, ht], hw, by simp⟩
  · cases hm : (memory w place).winner? ttl w.now reference with
    | none =>
      refine ⟨none, _, ?_, hi.change w _ hw fun c => .forget reference .refl, by simp⟩
      simp [winner?, ht, hm]
    | some index =>
      refine ⟨some index, w, by simp [winner?, ht, hm], hw, ?_⟩
      intro i hi'
      obtain rfl : index = i := by simpa using hi'
      exact (hi.sound w hw).winner? hm

/-- A request is answered by the first rule that applies, whatever is remembered. -/
theorem serve_plain (hi : Hosts inv place (winnerOf rules)) (ttl : Duration) (req : Request)
    (w : World) (h : List.Forall₂ (Obeys inv) rules handlers) (hw : inv w) :
    ∃ w', serve (Serving.chainAccess place) ttl handlers req w =
        some (plainFrom req none rules, w') ∧ inv w' := by
  obtain ⟨found, w₁, hfind, hw₁, hfound⟩ := winner?_sound hi ttl req.reference w hw
  simp only [serve, Serving.bind_apply, hfind, Option.bind_some]
  cases found with
  | none =>
    have hdone : ∀ rule ∈ ([] : List Rule), rule.applies req.reference = false := by simp
    exact search_plain hi ttl req rfl hdone h none w₁ hw₁
  | some index =>
    obtain ⟨rule, hr, happ, hplain⟩ := plainFrom_eq_of_winner req none (hfound index rfl)
    obtain ⟨handler, hh, hf⟩ := exists_handler h hr
    obtain ⟨w₂, hrun, hw₂⟩ := hf req w₁ hw₁
    have hn : (rule.answer req).status ≠ .notFound := rule.status_ne happ
    simp only [Option.bind_some, hh, Serving.bind_apply, hrun, hn, if_false, hplain]
    split
    · exact ⟨_, rfl, hi.change w₂ _ hw₂ fun c => .forget _ .refl⟩
    · exact ⟨w₂, rfl, hw₂⟩

/-- What a chain goes through. -/
inductive Event where
  | request (req : Request)
  /-- Time goes by. -/
  | elapse (span : Duration)
  /-- The winner for a reference is forgotten. -/
  | invalidate (reference : String)
  /-- All winners are forgotten. -/
  | clear

/-- What happens in an event, yielding the response to a request. -/
def occur (c : Chain) (handlers : List (Request → Serving Response)) :
    Event → Serving (Option Response)
  | .request req => do
    return some (← serve (Serving.chainAccess c.place) c.ttl handlers req)
  | .elapse span => do
    modify (·.sleep span)
    return none
  | .invalidate reference => do
    (Serving.chainAccess c.place).update (·.forget reference)
    return none
  | .clear => do
    (Serving.chainAccess c.place).update (·.clear)
    return none

/-- The responses a chain gives while it goes through events one after another. -/
def replay (c : Chain) (handlers : List (Request → Serving Response)) :
    List Event → Serving (List Response)
  | [] => return []
  | event :: rest => do
    let response ← occur c handlers event
    return response.toList ++ (← replay c handlers rest)

/-- The response to a request by a search from the first rule. -/
def plainOf (rules : List Rule) : Event → Option Response
  | .request req => some (plainFrom req none rules)
  | _ => none

/-- Every event keeps what is remembered sound, and gives the response of a plain search. -/
theorem occur_plain (ttl : Duration) (event : Event) (w : World)
    (h : List.Forall₂ (Follows place (winnerOf rules)) rules handlers)
    (hs : Sound (winnerOf rules) (memory w place)) :
    ∃ w', occur ⟨ttl, place⟩ handlers event w = some (plainOf rules event, w') ∧
      Sound (winnerOf rules) (memory w' place) := by
  cases event with
  | request req =>
    obtain ⟨w', hrun, hs'⟩ := serve_plain (hosts_sound place _) ttl req w
      (h.imp fun _ _ hf => hf.obeys) hs
    exact ⟨w', by simp [occur, hrun, plainOf], hs'⟩
  | elapse span => exact ⟨w.sleep span, rfl, by rwa [memory_sleep]⟩
  | invalidate reference =>
    exact ⟨_, rfl, (evolves_update w fun c => .forget reference .refl).sound hs⟩
  | clear => exact ⟨_, rfl, (evolves_update w fun c => .clear .refl).sound hs⟩

theorem replay_plain (ttl : Duration) (events : List Event) (w : World)
    (h : List.Forall₂ (Follows place (winnerOf rules)) rules handlers)
    (hs : Sound (winnerOf rules) (memory w place)) :
    ∃ w', replay ⟨ttl, place⟩ handlers events w = some (events.filterMap (plainOf rules), w') := by
  induction events generalizing w with
  | nil => exact ⟨w, rfl⟩
  | cons event rest ih =>
    obtain ⟨w₁, hrun, hs₁⟩ := occur_plain ttl event w h hs
    obtain ⟨w₂, hrest⟩ := ih w₁ hs₁
    refine ⟨w₂, ?_⟩
    simp only [replay, Serving.bind_apply, hrun, hrest, Option.bind_some, Serving.pure_apply]
    cases hp : plainOf rules event <;> simp [hp]

/-- A chain that remembers winners for any time span gives the responses of one that remembers
none, through every run of requests, time, and forgetting. Each handler answers by a rule, and it
only depends on the reference of a request whether the rule applies. -/
theorem replay_eq_replay_zero (ttl : Duration) (place : Nat) (rules : List Rule)
    (handlers : List (Request → Serving Response)) (events : List Event) (w : World)
    (h : List.Forall₂ (Follows place (winnerOf rules)) rules handlers)
    (hw : (memory w place).winners = {}) :
    ∃ responses w₁ w₂, replay ⟨ttl, place⟩ handlers events w = some (responses, w₁) ∧
      replay ⟨0, place⟩ handlers events w = some (responses, w₂) := by
  have hs : Sound (winnerOf rules) (memory w place) := sound_of_empty hw
  obtain ⟨w₁, h₁⟩ := replay_plain ttl events w h hs
  obtain ⟨w₂, h₂⟩ := replay_plain 0 events w h hs
  exact ⟨_, w₁, w₂, h₁, h₂⟩

/-- The rule that applies to a single reference. -/
def Rule.only (reference : String) (status : Status) (h : status ≠ .notFound) : Rule where
  answer req := .ofStatus (if req.reference = reference then status else .notFound)
  applies r := r = reference
  answer_notFound req := by
    by_cases hr : req.reference = reference <;> simp [Response.ofStatus, Response.withText,
      Response.header, hr, h]

theorem follows_pure (place : Nat) (winner : String → Option Nat) (rule : Rule) :
    Follows place winner rule fun req => return rule.answer req :=
  fun _ w => ⟨w, rfl, .refl⟩

/-- Two rules that apply to a reference each. -/
def twoRules : List Rule := [.only "/a" .ok (by decide), .only "/b" .badGateway (by decide)]

/-- Handlers for the two rules. The second one clears what the chain remembers each time it's
asked. -/
def twoHandlers : List (Request → Serving Response) :=
  [fun req => return (Rule.only "/a" .ok (by decide)).answer req,
    fun req => do
      (Serving.chainAccess 0).update (·.clear)
      return (Rule.only "/b" .badGateway (by decide)).answer req]

theorem follows_twoHandlers :
    List.Forall₂ (Follows 0 (winnerOf twoRules)) twoRules twoHandlers := by
  refine .cons (follows_pure _ _ _) (.cons ?_ .nil)
  exact fun req w => ⟨_, rfl, evolves_update w fun c => .clear .refl⟩

/-- Requests for both references and for another one, with time passing and forgetting between
them. -/
def mixedEvents : List Event :=
  [.request { uri := ⟨"/a", none⟩ }, .elapse 30, .request { uri := ⟨"/b", none⟩ },
    .invalidate "/a", .request { uri := ⟨"/c", none⟩ }, .clear, .request { uri := ⟨"/a", none⟩ }]

theorem replay_eq_replay_zero_clearing :
    List.Forall₂ (Follows 0 (winnerOf twoRules)) twoRules twoHandlers ∧
      (memory { chains := #[{}] } 0).winners = {} ∧
      ∃ responses w₁ w₂,
        replay ⟨50, 0⟩ twoHandlers mixedEvents { chains := #[{}] } = some (responses, w₁) ∧
        replay ⟨0, 0⟩ twoHandlers mixedEvents { chains := #[{}] } = some (responses, w₂) :=
  ⟨follows_twoHandlers, rfl, replay_eq_replay_zero 50 0 twoRules twoHandlers mixedEvents
    { chains := #[{}] } follows_twoHandlers rfl⟩

end RequestRouting.Chain
