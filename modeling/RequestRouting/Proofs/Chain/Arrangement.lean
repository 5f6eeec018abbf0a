import Mathlib.Data.List.Nodup
import RequestRouting.Config.Descriptor
import RequestRouting.Proofs.Chain.Transparency

/-!
# Chains of chains

A chain whose handlers are chains, to any depth, answers like a single chain of all handlers in the
leaves, if each of these answers by a rule. Every chain remembers winners of its own, so the invariant
is that each of them is the one of a search through the handlers of its chain, where a chain further
down counts as a handler that applies as soon as one of its own does.
-/

namespace RequestRouting

open Serving (memory memory_sleep memory_modify_of_ne)

namespace Chain

variable {req : Request} {rules rest : List Rule}

/-- Behind other rules, the response before doesn't matter. -/
theorem plainFrom_of_ne_nil (h : rules ≠ []) (last : Option Response) :
    plainFrom req last rules = plainFrom req none rules := by
  cases rules with
  | nil => exact absurd rfl h
  | cons rule rest => rfl

/-- If none of the rules in front applies, the others go on with the response of the last of these. -/
theorem plainFrom_append (h : rules ≠ []) (last : Option Response) :
    plainFrom req last (rules ++ rest) =
      if rules.any (·.applies req.reference) then plainFrom req none rules
      else plainFrom req (some (plainFrom req none rules)) rest := by
  induction rules generalizing last with
  | nil => exact absurd rfl h
  | cons rule more ih =>
    rw [List.cons_append, plainFrom, plainFrom, List.any_cons]
    cases ha : rule.applies req.reference with
    | true => simp
    | false =>
      rw [if_neg Bool.false_ne_true, if_neg Bool.false_ne_true, Bool.false_or]
      cases more with
      | nil => rfl
      | cons second more =>
        rw [ih (List.cons_ne_nil _ _), plainFrom_of_ne_nil (List.cons_ne_nil _ _) (some _)]

theorem status_plainFrom (last : Option Response)
    (h : ∀ res ∈ last, res.status = .notFound) :
    (plainFrom req last rules).status = .notFound ↔
      rules.any (·.applies req.reference) = false := by
  induction rules generalizing last with
  | nil =>
    refine iff_of_true ?_ rfl
    cases last with
    | none => rfl
    | some res => exact h res rfl
  | cons rule rest ih =>
    rw [plainFrom, List.any_cons]
    cases ha : rule.applies req.reference with
    | true => simpa using rule.status_ne ha
    | false =>
      rw [if_neg Bool.false_ne_true, Bool.false_or]
      refine ih _ fun res hres => ?_
      obtain rfl := Option.some.inj hres
      exact (rule.answer_notFound req).mpr ha

/-- Several rules in order, as a single one. -/
def Rule.first (rules : List Rule) : Rule where
  answer req := plainFrom req none rules
  applies reference := rules.any (·.applies reference)
  answer_notFound _ := status_plainFrom none nofun

theorem Rule.first_singleton (rule : Rule) : first [rule] = rule := by
  obtain ⟨answer, applies, _⟩ := rule
  rw [first, Rule.mk.injEq]
  refine ⟨funext fun req => ?_, funext fun reference => by simp⟩
  simp [plainFrom]

/-- Rules that are taken together a few at a time are all rules in order. -/
theorem plainFrom_first {groups : List (List Rule)} (h : ∀ rules ∈ groups, rules ≠ [])
    (last : Option Response) :
    plainFrom req last (groups.map Rule.first) = plainFrom req last groups.flatten := by
  induction groups generalizing last with
  | nil => rfl
  | cons rules groups ih =>
    obtain ⟨hrules, hgroups⟩ := List.forall_mem_cons.mp h
    rw [List.map_cons, List.flatten_cons, plainFrom_append hrules, plainFrom, ih hgroups]
    rfl

theorem Rule.first_map_first {groups : List (List Rule)} (h : ∀ rules ∈ groups, rules ≠ []) :
    first (groups.map first) = first groups.flatten := by
  unfold first
  rw [Rule.mk.injEq]
  refine ⟨funext fun req => plainFrom_first h none, funext fun reference => ?_⟩
  rw [List.any_flatten, List.any_map]
  rfl

end Chain

open Chain (Rule Sound Obeys Hosts winnerOf)

/-- What an array of descriptors is resolved into: chains of chains, with handlers in the leaves, each
of them with the descriptor it's resolved from. A chain with a single handler is nothing but that
handler. -/
inductive Arrangement where
  | leaf (d : Descriptor) (handler : Handler)
  | empty
  | chain (chain : Chain) (parts : List Arrangement)

namespace Arrangement

mutual

/-- The handler of an arrangement. -/
def handler : Arrangement → Handler
  | leaf _ h => h
  | empty => .notFound
  | chain c parts => .chain c (handlers parts)

def handlers : List Arrangement → List Handler
  | [] => []
  | part :: rest => part.handler :: handlers rest

end

mutual

/-- The handlers in the leaves, in order, with their descriptors. -/
def leaves : Arrangement → List (Descriptor × Handler)
  | leaf d h => [(d, h)]
  | empty => []
  | chain _ parts => leavesAll parts

def leavesAll : List Arrangement → List (Descriptor × Handler)
  | [] => []
  | part :: rest => part.leaves ++ leavesAll rest

end

mutual

/-- The chains, by their places, each with its parts. -/
def chains : Arrangement → List (Nat × List Arrangement)
  | leaf _ _ => []
  | empty => []
  | chain c parts => chainsAll parts ++ [(c.place, parts)]

def chainsAll : List Arrangement → List (Nat × List Arrangement)
  | [] => []
  | part :: rest => part.chains ++ chainsAll rest

end

mutual

/-- Whether there's a handler in all of the arrangement. -/
def NoneEmpty : Arrangement → Prop
  | leaf _ _ => True
  | empty => False
  | chain _ parts => parts ≠ [] ∧ NoneEmptyAll parts

def NoneEmptyAll : List Arrangement → Prop
  | [] => True
  | part :: rest => part.NoneEmpty ∧ NoneEmptyAll rest

end

/-- The descriptors of the leaves, in order. -/
def descriptors (A : Arrangement) : List Descriptor := A.leaves.map (·.1)

/-- The places where the chains remember winners. -/
def places (A : Arrangement) : List Nat := A.chains.map (·.1)

section Rules

variable (ρ : Descriptor → Rule)

mutual

/-- The rule of an arrangement, given the rules of its leaves. -/
def rule : Arrangement → Rule
  | leaf d _ => ρ d
  | empty => .first []
  | chain _ parts => .first (rules parts)

def rules : List Arrangement → List Rule
  | [] => []
  | part :: rest => part.rule :: rules rest

end

/-- Whether all winners that are remembered are those of searches. -/
def IsSound (A : Arrangement) (w : World) : Prop :=
  ∀ c ∈ A.chains, Sound (winnerOf (rules ρ c.2)) (memory w c.1)

end Rules

variable {ρ : Descriptor → Rule} {inv calm : World → Prop} {jump : Jump} {A B : Arrangement}

theorem leavesAll_eq_flatMap (parts : List Arrangement) : leavesAll parts = parts.flatMap leaves := by
  induction parts with
  | nil => rfl
  | cons part rest ih => rw [leavesAll, ih, List.flatMap_cons]

theorem chainsAll_eq_flatMap (parts : List Arrangement) : chainsAll parts = parts.flatMap chains := by
  induction parts with
  | nil => rfl
  | cons part rest ih => rw [chainsAll, ih, List.flatMap_cons]

@[simp] theorem leavesAll_singleton (A : Arrangement) : leavesAll [A] = A.leaves :=
  List.append_nil _

@[simp] theorem chainsAll_singleton (A : Arrangement) : chainsAll [A] = A.chains :=
  List.append_nil _

theorem leavesAll_append (parts more : List Arrangement) :
    leavesAll (parts ++ more) = leavesAll parts ++ leavesAll more := by
  simp only [leavesAll_eq_flatMap, List.flatMap_append]

theorem chainsAll_append (parts more : List Arrangement) :
    chainsAll (parts ++ more) = chainsAll parts ++ chainsAll more := by
  simp only [chainsAll_eq_flatMap, List.flatMap_append]

/-! An arrangement without empty chains has the rule of its leaves in order. -/

mutual

theorem leaves_ne_nil : (A : Arrangement) → A.NoneEmpty → A.leaves ≠ []
  | leaf _ _, _ => List.cons_ne_nil _ _
  | empty, h => h.elim
  | chain _ parts, h => by
    rw [leaves]
    exact leavesAll_ne_nil parts h.1 h.2

theorem leavesAll_ne_nil : (parts : List Arrangement) → parts ≠ [] → NoneEmptyAll parts →
    leavesAll parts ≠ []
  | [], hn, _ => absurd rfl hn
  | part :: _, _, h => List.append_ne_nil_of_left_ne_nil (leaves_ne_nil part h.1) _

end

theorem forall_leaves_ne_nil {parts : List Arrangement} (h : NoneEmptyAll parts) :
    ∀ part ∈ parts, part.leaves ≠ [] := by
  induction parts with
  | nil => exact fun _ hm => absurd hm List.not_mem_nil
  | cons part rest ih => exact List.forall_mem_cons.mpr ⟨part.leaves_ne_nil h.1, ih h.2⟩

mutual

theorem rule_eq : (A : Arrangement) → A.NoneEmpty →
    A.rule ρ = .first (A.descriptors.map ρ)
  | leaf d _, _ => (Rule.first_singleton (ρ d)).symm
  | empty, h => h.elim
  | chain c parts, h => by
    have hgroups : ∀ group ∈ parts.map fun part => part.descriptors.map ρ, group ≠ [] := by
      intro group hg
      obtain ⟨part, hp, rfl⟩ := List.mem_map.mp hg
      simpa [descriptors] using forall_leaves_ne_nil h.2 part hp
    rw [rule, rules_eq parts h.2, ← List.map_map, Rule.first_map_first hgroups, descriptors, leaves,
      leavesAll_eq_flatMap]
    simp [List.flatMap, List.map_flatten, descriptors, Function.comp_def]

theorem rules_eq : (parts : List Arrangement) → NoneEmptyAll parts →
    rules ρ parts = parts.map (Rule.first ∘ fun part => part.descriptors.map ρ)
  | [], _ => rfl
  | part :: rest, h => by
    rw [rules, rule_eq part h.1, rules_eq rest h.2, List.map_cons, Function.comp]

end

/-! Each handler in an arrangement answers by the rule of the arrangement it's that of. -/

mutual

/-- An arrangement answers by its rule, if its leaves answer by theirs. -/
theorem obeys_handler : (A : Arrangement) →
    (∀ leaf ∈ A.leaves, Obeys inv (ρ leaf.1) (leaf.2.run jump)) →
    (∀ c ∈ A.chains, Hosts inv c.1 (winnerOf (rules ρ c.2))) →
      Obeys inv (A.rule ρ) (A.handler.run jump)
  | leaf _ _, hl, _ => hl _ (List.mem_singleton_self _)
  | empty, _, _ => fun _ w hw => ⟨w, rfl, hw⟩
  | chain c parts, hl, hc => by
    intro req w hw
    have hparts := obeys_handlers parts hl fun c hm => hc c (List.mem_append_left _ hm)
    have hchain := hc (c.place, parts) (List.mem_append_right _ (List.mem_singleton_self _))
    exact Chain.serve_plain hchain c.ttl req w hparts hw

theorem obeys_handlers : (parts : List Arrangement) →
    (∀ leaf ∈ leavesAll parts, Obeys inv (ρ leaf.1) (leaf.2.run jump)) →
    (∀ c ∈ chainsAll parts, Hosts inv c.1 (winnerOf (rules ρ c.2))) →
      List.Forall₂ (Obeys inv) (rules ρ parts) (Handler.runAll jump (handlers parts))
  | [], _, _ => .nil
  | part :: rest, hl, hc =>
    .cons (obeys_handler part (fun leaf hm => hl leaf (List.mem_append_left _ hm))
        fun c hm => hc c (List.mem_append_left _ hm))
      (obeys_handlers rest (fun leaf hm => hl leaf (List.mem_append_right _ hm))
        fun c hm => hc c (List.mem_append_right _ hm))

end

/-- Whether the leaves of an arrangement answer by rules in worlds that have a property, as long as all
winners that are remembered are those of searches. The property doesn't depend on the time, nor on
what the chains remember. -/
structure Answers (A : Arrangement) (ρ : Descriptor → Rule) (calm : World → Prop) (jump : Jump) :
    Prop where
  sleep : ∀ w span, calm w → calm (w.sleep span)
  remember : ∀ w place change, place ∈ A.places → calm w →
    calm { w with chains := w.chains.modify place change }
  leaf : ∀ leaf ∈ A.leaves,
    Obeys (fun w => calm w ∧ A.IsSound ρ w) (ρ leaf.1) (leaf.2.run jump)

/-- What a chain remembers is kept sound by the chain, and by all others, as each has a place of its
own. -/
theorem Answers.hosts (ha : A.Answers ρ calm jump) (hn : A.places.Nodup) {c : Nat × List Arrangement}
    (hc : c ∈ A.chains) :
    Hosts (fun w => calm w ∧ A.IsSound ρ w) c.1 (winnerOf (rules ρ c.2)) where
  sound _ hw := hw.2 c hc
  change w f hw hf := by
    refine ⟨ha.remember w c.1 f (List.mem_map_of_mem hc) hw.1, fun c' hc' => ?_⟩
    by_cases hp : c.1 = c'.1
    · obtain rfl := List.inj_on_of_nodup_map hn hc hc' hp
      exact (Chain.evolves_update w hf).sound (hw.2 c hc)
    · rw [memory_modify_of_ne w hp]
      exact hw.2 c' hc'

end Arrangement

/-- The responses to requests, each of which is made after some time. -/
def Handler.answerAll (jump : Jump) (h : Handler) :
    List (Duration × Request) → Serving (List Response)
  | [] => return []
  | (span, req) :: rest => do
    modify (·.sleep span)
    let res ← h.run jump req
    return res :: (← h.answerAll jump rest)

theorem Chain.Obeys.answerAll {inv : World → Prop} {rule : Rule} {h : Handler} {jump : Jump}
    (ho : Obeys inv rule (h.run jump)) (hs : ∀ w span, inv w → inv (w.sleep span))
    (requests : List (Duration × Request)) (w : World) (hw : inv w) :
    ∃ w', h.answerAll jump requests w =
      some (requests.map fun request => rule.answer request.2, w') := by
  induction requests generalizing w with
  | nil => exact ⟨w, rfl⟩
  | cons request rest ih =>
    obtain ⟨span, req⟩ := request
    obtain ⟨w₁, hrun, hw₁⟩ := ho req (w.sleep span) (hs w span hw)
    obtain ⟨w₂, hrest⟩ := ih w₁ hw₁
    refine ⟨w₂, ?_⟩
    simp only [Handler.answerAll, Serving.bind_apply, Serving.modify_apply, Option.bind_some, hrun,
      hrest, Serving.pure_apply, List.map_cons]

/-- However long it takes between requests, an arrangement without empty chains gives the responses of
the first leaf whose rule applies, or else of the last leaf. -/
theorem Arrangement.answerAll_eq {A : Arrangement} {ρ : Descriptor → Rule} {calm : World → Prop}
    {jump : Jump} (ha : A.Answers ρ calm jump) (hn : A.places.Nodup) (he : A.NoneEmpty)
    (requests : List (Duration × Request)) {w : World} (hw : calm w) (hs : A.IsSound ρ w) :
    ∃ w', A.handler.answerAll jump requests w = some (requests.map fun request =>
      Chain.plainFrom request.2 none (A.descriptors.map ρ), w') := by
  have ho : Obeys (fun w => calm w ∧ A.IsSound ρ w) (A.rule ρ) (A.handler.run jump) :=
    A.obeys_handler ha.leaf fun _ hc => ha.hosts hn hc
  rw [rule_eq A he] at ho
  refine ho.answerAll (fun w span hw => ⟨ha.sleep w span hw.1, fun c hc => ?_⟩) requests w ⟨hw, hs⟩
  rw [memory_sleep]
  exact hw.2 c hc

end RequestRouting
