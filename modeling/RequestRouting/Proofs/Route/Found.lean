import RequestRouting.Proofs.Route.Refused

/-!
# Patterns that are found

A pattern that was added to a tree is found there, namely by the path that has a brace in the place
of all that takes text. Braces aren't written in patterns, so no branch leads elsewhere, and no
other ending of a parameter fits that is as long.
-/

namespace RequestRouting

namespace Pattern

/-- A byte a symbol is filled with: itself, or a brace where text is taken. -/
def Symbol.sample : Symbol → UInt8
  | .byte b => b
  | .param | .catchAll _ => brace

/-- A path that symbols are filled with. -/
def sample (symbols : List Symbol) : List UInt8 := symbols.map Symbol.sample

variable {symbols below : List Symbol} {ending : List UInt8}

@[simp] theorem sample_nil : sample [] = [] := rfl

@[simp] theorem sample_cons (s : Symbol) : sample (s :: symbols) = s.sample :: sample symbols := rfl

@[simp] theorem sample_append : sample (symbols ++ below) = sample symbols ++ sample below :=
  List.map_append

@[simp] theorem sample_bytes (lead : List UInt8) : sample (lead.map .byte) = lead := by
  rw [sample, List.map_map]
  exact List.map_id lead

theorem Symbol.sample_eq_brace {s : Symbol} (h : s.isWild = true) : s.sample = brace := by
  cases s with
  | byte b => cases h
  | param => rfl
  | catchAll name => rfl

theorem Symbol.sample_eq_slash_iff {s : Symbol} : s.sample = slash ↔ s = .byte slash := by
  cases s <;> simp [Symbol.sample, brace, slash]

@[simp] theorem sample_lead (lead : List UInt8) (s : Symbol) (rest : List Symbol) :
    sample (lead.map .byte ++ s :: rest) = lead ++ s.sample :: sample rest := by
  rw [sample_append, sample_bytes, sample_cons]

/-- A segment is filled with the first segment of the path. -/
theorem through_sample (h : segment symbols = ending.map .byte) :
    through slash (sample symbols) = ending := by
  have hp : (fun b => decide (b ≠ slash)) ∘ Symbol.sample = fun s => decide (s ≠ .byte slash) := by
    funext s
    simp [Symbol.sample_eq_slash_iff]
  have hall : through slash (sample symbols) = sample (segment symbols) := by
    rw [segment, through, through, sample_append, sample, List.takeWhile_map, List.dropWhile_map,
      ← List.map_take, hp, sample, sample]
  rw [hall, h, sample_bytes]

theorem through_brace (path : List UInt8) :
    through slash (brace :: path) = brace :: through slash path := by
  simp [through, brace, slash]

end Pattern

namespace RouteTree

open Pattern (Symbol brace sample segment)

variable {α : Type} {symbols below : List Symbol} {leaf : Leaf α} {own : Option (Leaf α)}
  {b : UInt8} {lead ending path : List UInt8} {weight : Nat}
  {tree tree' : RouteTree α} {branches : Branches α} {wild : Wild α}
  {result : Except PatternError Unit}

/-- Whether a leaf is what's found. -/
def IsLeaf (leaf : Leaf α) (found : Option (Found α)) : Prop := found.map (·.leaf) = some leaf

section

variable (lead : List UInt8) (own : Option (Leaf α)) (weight : Nat) (branches : Branches α)
  (wild : Wild α)

theorem find?_lead :
    (node lead own weight branches wild).find? lead = own.map fun leaf => { leaf } := by
  have h : lead.isPrefixOf? lead = some [] := by simp
  simp only [find?, h]

theorem find?_append (b : UInt8) (path : List UInt8) :
    (node lead own weight branches wild).find? (lead ++ b :: path) =
      (branches.find? b (b :: path)).or (wild.find? (b :: path)) := by
  have h : lead.isPrefixOf? (lead ++ b :: path) = some (b :: path) := by simp
  simp only [find?, h]
  cases branches.find? b (b :: path) <;> rfl

end

/-! ## What is found in branches -/

theorem Branches.find?_eq_none (path : List UInt8) :
    ∀ {branches : Branches α}, b ∉ branches.keys → branches.find? b path = none
  | .nil, _ => rfl
  | .cons k t others, h => by
    obtain ⟨hk, ho⟩ : b ≠ k ∧ b ∉ others.keys := by simpa [keys] using h
    rw [find?, if_neg hk.symm, find?_eq_none path ho]

theorem Branches.find?_append_self (tree : RouteTree α) (path : List UInt8) :
    ∀ {branches : Branches α}, b ∉ branches.keys →
      (branches.append b tree).find? b path = tree.find? path
  | .nil, _ => by rw [append, find?, if_pos rfl]
  | .cons k t others, h => by
    obtain ⟨hk, ho⟩ : b ≠ k ∧ b ∉ others.keys := by simpa [keys] using h
    rw [append, find?, if_neg hk.symm, find?_append_self tree path ho]

/-- A path with a brace is found where text is taken. -/
theorem find?_brace (h : brace ∉ branches.keys) (path : List UInt8) :
    (node lead own weight branches wild).find? (lead ++ brace :: path) =
      wild.find? (brace :: path) := by
  rw [find?_append, Branches.find?_eq_none _ h, Option.none_or]

/-! ## What is found behind a parameter -/

theorem Wild.find?_param (own : Option (Leaf α)) (endings : Branches α) (path : List UInt8) :
    (Wild.param own endings).find? (brace :: path) = endings.settle? own (brace :: path) := by
  rw [find?, if_neg (by simp [brace, Pattern.slash])]

/-- An ending fits a brace and the ending itself. -/
theorem before?_brace (ending : List UInt8) : before? ending (brace :: ending) = some [brace] := by
  simp [before?]

/-- No other ending that is as long does. -/
theorem before?_eq_none (hl : ending.length ≤ lead.length) (hne : lead ≠ ending) :
    before? lead (brace :: ending) = none := by
  rw [before?]
  split
  · rename_i h
    simp only [Bool.and_eq_true, Bool.not_eq_true', List.isEmpty_eq_false_iff,
      decide_eq_true_eq] at h
    obtain ⟨htaken, heq⟩ := h
    -- What is taken is the brace, so the lead is the ending.
    obtain ⟨c, taken, hc⟩ := List.exists_cons_of_ne_nil htaken
    rw [hc, List.cons_append] at heq
    obtain ⟨-, rfl⟩ := List.cons.inj heq
    have hzero : taken.length = 0 := by
      rw [List.length_append] at hl
      omega
    rw [List.length_eq_zero_iff.mp hzero, List.nil_append] at hne
    exact absurd rfl hne
  · rfl

/-- The tree behind a parameter is found by an ending that fits. -/
theorem Branches.settle?_cons (key : UInt8) (others : Branches α) (own : Option (Leaf α))
    (h : Pattern.through Pattern.slash path = tree.lead) :
    (Branches.cons key tree others).settle? own (brace :: path) =
      (tree.find? path).map (·.take [brace]) := by
  rw [settle?, Pattern.through_brace, h, before?_brace]
  rfl

theorem Branches.settle?_of_ne (key : UInt8) (others : Branches α) (own : Option (Leaf α))
    (hl : (Pattern.through Pattern.slash path).length ≤ tree.lead.length)
    (hne : tree.lead ≠ Pattern.through Pattern.slash path) :
    (Branches.cons key tree others).settle? own (brace :: path) =
      others.settle? own (brace :: path) := by
  rw [settle?, Pattern.through_brace, before?_eq_none hl hne]

/-- Where nothing follows a parameter, none of its endings fits. -/
theorem Branches.settle?_brace (own : Option (Leaf α)) :
    ∀ {endings : Branches α}, [] ∉ endings.leads →
      endings.settle? own [brace] = own.map fun leaf => { leaf, taken := [[brace]] }
  | .nil, _ => by
    rw [settle?, if_neg (by decide)]
  | .cons key tree others, h => by
    obtain ⟨hne, ho⟩ : [] ≠ tree.lead ∧ [] ∉ others.leads := by simpa [leads] using h
    rw [settle?_of_ne _ _ _ (Nat.zero_le _) hne.symm, settle?_brace own ho]

/-- An ending that is put in its place is found there. -/
theorem Branches.settle?_place (key : UInt8) (own : Option (Leaf α))
    (h : Pattern.through Pattern.slash path = tree.lead) :
    ∀ {endings : Branches α}, tree.lead ∉ endings.leads →
      (endings.place key tree).settle? own (brace :: path) =
        (tree.find? path).map (·.take [brace])
  | .nil, _ => settle?_cons key .nil own h
  | .cons k t others, hn => by
    obtain ⟨hne, ho⟩ : tree.lead ≠ t.lead ∧ tree.lead ∉ others.leads := by simpa [leads] using hn
    rw [place]
    split
    · exact settle?_cons key _ own h
    · rename_i hge
      rw [settle?_of_ne _ _ _ (h ▸ Nat.le_of_not_lt hge) (h ▸ hne.symm)]
      exact settle?_place key own h ho

/-! ## What is found after a pattern was added -/

theorem IsLeaf.take {taken : List UInt8} {found : Option (Found α)} (h : IsLeaf leaf found) :
    IsLeaf leaf (found.map (·.take taken)) := by
  rwa [IsLeaf, Option.map_map]

/-- A pattern that doesn't start with a byte has no lead. -/
theorem Grown.lead_eq_nil (h : Grown leaf symbols tree result)
    (hs : ∀ b rest, symbols ≠ .byte b :: rest) : ∃ own wild, tree = .node [] own 1 .nil wild := by
  have hnil {lead : List UInt8} {more : List Symbol} (he : symbols = lead.map .byte ++ more) :
      lead = [] := by
    cases lead with
    | nil => rfl
    | cons b lead => exact absurd he (hs b _)
  cases h with
  | bytes => obtain rfl := hnil (List.append_nil _).symm; exact ⟨_, _, rfl⟩
  | catchAll => obtain rfl := hnil rfl; exact ⟨_, _, rfl⟩
  | misplaced => exact ⟨_, _, rfl⟩
  | several => obtain rfl := hnil rfl; exact ⟨_, _, rfl⟩
  | param => obtain rfl := hnil rfl; exact ⟨_, _, rfl⟩
  | ending => obtain rfl := hnil rfl; exact ⟨_, _, rfl⟩

/-- What follows an ending is found behind the ending. -/
theorem Grown.find?_under (h : Grown leaf below tree result) (ending : List UInt8) :
    (under ending below tree).find? (ending ++ sample below) = tree.find? (sample below) := by
  unfold under
  split
  · rename_i b rest
    rw [sample, List.map_cons, Symbol.sample, find?_append, Branches.find?, if_pos rfl]
    exact Option.or_none
  · rename_i hs
    obtain ⟨own, wild, rfl⟩ := h.lead_eq_nil hs
    have hnil : [].isPrefixOf? (sample below) = some (sample below) := rfl
    have hending : ending.isPrefixOf? (ending ++ sample below) = some (sample below) := by simp
    simp only [withLead, find?, hnil, hending]

theorem Grown.isLeaf (h : Grown leaf symbols tree (.ok ())) :
    IsLeaf leaf (tree.find? (sample symbols)) := by
  generalize hr : Except.ok () = result at h
  induction h with
  | bytes lead =>
    rw [Pattern.sample_bytes, find?_lead]
    rfl
  | catchAll lead name =>
    rw [Pattern.sample_lead]
    exact congrArg (Option.map _) (find?_brace List.not_mem_nil _)
  | misplaced => cases hr
  | several => cases hr
  | param lead =>
    rw [Pattern.sample_lead, Symbol.sample, Pattern.sample_nil, find?_brace List.not_mem_nil,
      Wild.find?_param, Branches.settle?_brace _ List.not_mem_nil]
    rfl
  | @ending lead ending below tree _ _ hs hg ih =>
    rw [Pattern.sample_lead, Symbol.sample, find?_brace List.not_mem_nil, Wild.find?_param,
      Branches.settle?_cons _ _ _ ((Pattern.through_sample hs).trans (lead_under ..).symm),
      Pattern.sample_append, Pattern.sample_bytes, hg.find?_under]
    exact (ih hr).take

theorem IsLeaf.or {found : Option (Found α)} (h : IsLeaf leaf found)
    (other : Option (Found α)) : IsLeaf leaf (found.or other) := by
  obtain ⟨f, rfl, hf⟩ := Option.map_eq_some_iff.mp h
  exact h

theorem Extended.isLeaf (he : Extended leaf tree symbols tree' (.ok ())) (h : tree.IsSound)
    (hb : ∀ b rest, symbols = .byte b :: rest → b ∉ tree.keys) :
    IsLeaf leaf (tree'.find? (tree.lead ++ sample symbols)) := by
  generalize hr : Except.ok () = result at he
  cases he with
  | conflict => cases hr
  | leaf lead own weight branches wild =>
    rw [Pattern.sample_nil, List.append_nil, RouteTree.lead, find?_lead]
    rfl
  | @branch lead own weight branches wild b rest _ _ hg =>
    subst hr
    rw [Pattern.sample_cons, Symbol.sample, RouteTree.lead, find?_append,
      Branches.find?_append_self _ _ (hb b rest rfl)]
    exact hg.isLeaf.or _
  | @wild lead own weight branches wild s rest shoot _ hs hg =>
    subst hr
    have hleaf := hg.isLeaf
    obtain ⟨own, wild, rfl⟩ := hg.lead_eq_nil (by rintro b _ ⟨⟩; cases hs)
    rw [Pattern.sample_cons, Symbol.sample_eq_brace hs] at hleaf ⊢
    rw [← List.nil_append (brace :: _), find?_brace List.not_mem_nil] at hleaf
    rw [RouteTree.lead, find?_brace h.2.1]
    exact hleaf

theorem settle_of_ok {before : List Symbol} (h : (settle before symbols leaf own).2 = .ok ()) :
    (settle before symbols leaf own).1 = some leaf := by
  cases own with
  | none => rfl
  | some other => cases h

/-- An ending that a pattern goes on with is one of the endings. -/
theorem Branches.exists_of_mem_insertEnding? {before : List Symbol} :
    ∀ {endings endings' : Branches α} {result : Except PatternError Unit},
      endings.insertEnding? before leaf symbols = some (endings', result) →
        ∃ ending ∈ endings.leads, segment symbols = ending.map .byte
  | .nil, _, _, h => by simp [insertEnding?] at h
  | .cons key tree others, endings', result, h => by
    obtain ⟨hl, -, -⟩ | ⟨-, others', ho, -⟩ := exists_of_insertEnding? h
    · exact ⟨tree.lead, List.mem_cons_self, hl.symm⟩
    · obtain ⟨ending, hm, he⟩ := exists_of_mem_insertEnding? ho
      exact ⟨ending, List.mem_cons_of_mem _ hm, he⟩

theorem Branches.not_mem_of_insertEnding? {before : List Symbol}
    (hs : segment symbols = ending.map .byte) :
    ∀ {endings : Branches α}, endings.insertEnding? before leaf symbols = none →
      ending ∉ endings.leads
  | .nil, _ => List.not_mem_nil
  | .cons key tree others, h => by
    rw [insertEnding?] at h
    split at h
    · cases h
    · rename_i hne
      rw [leads, List.mem_cons, not_or]
      refine ⟨?_, not_mem_of_insertEnding? hs (Option.map_eq_none_iff.mp h)⟩
      rintro rfl
      exact hne hs.symm

mutual

/-- A pattern that was added is found. -/
theorem isLeaf_insert (before : List Symbol) (leaf : Leaf α) :
    ∀ {tree tree' : RouteTree α} {symbols : List Symbol}, tree.IsSound →
      tree.insert before leaf symbols = (tree', .ok ()) →
      IsLeaf leaf (tree'.find? (sample symbols))
  | .node lead own weight branches wild, tree', symbols, h, hi => by
    have hins := inserted_insert before leaf (.node lead own weight branches wild) symbols
    rw [hi] at hins
    generalize hr : Except.ok () = result at hins
    have ⟨hl, hk, hn, ha, hw⟩ := h
    cases hins with
    | split _ _ _ _ hb he =>
      subst hr
      rw [Pattern.sample_append, Pattern.sample_bytes]
      refine he.isLeaf h.split ?_
      rintro c rest rfl
      simpa [keys, Branches.keys] using (hb c rest rfl).symm
    | settled =>
      rw [Pattern.sample_bytes, find?_lead, settle_of_ok hr.symm]
      rfl
    | branch _ _ _ _ hi =>
      subst hr
      rw [Pattern.sample_lead, Symbol.sample, find?_append]
      exact (Branches.isLeaf_insert? hn ha hi).or _
    | wild _ _ _ _ hsw hi =>
      subst hr
      have hleaf := Wild.isLeaf_insert? hw hi
      rw [Pattern.sample_cons, Symbol.sample_eq_brace hsw] at hleaf
      rw [Pattern.sample_lead, Symbol.sample_eq_brace hsw, find?_brace hk]
      exact hleaf
    | extended _ _ _ _ hb he =>
      subst hr
      rw [Pattern.sample_append, Pattern.sample_bytes]
      exact he.isLeaf h hb

theorem Branches.isLeaf_insert? {before : List Symbol} {leaf : Leaf α} :
    ∀ {branches branches' : Branches α} {b : UInt8} {symbols : List Symbol},
      branches.keys.Nodup → branches.AllSound →
      branches.insert? before leaf b symbols = some (branches', .ok ()) →
      IsLeaf leaf (branches'.find? b (sample symbols))
  | .nil, _, _, _, _, _, h => by simp [Branches.insert?] at h
  | .cons key tree others, branches', b, symbols, hn, ⟨ht, ho⟩, h => by
    obtain ⟨hkey, hothers⟩ := List.nodup_cons.mp hn
    obtain ⟨rfl, rfl, hr⟩ | ⟨hne, others', hi, rfl⟩ := Branches.exists_of_insert? h
    · rw [Branches.find?, if_pos rfl]
      exact isLeaf_insert before leaf ht (Prod.ext rfl hr.symm)
    · rw [Branches.find?_push (by rwa [(Branches.keys_insert? hi).mem_iff]), Branches.find?,
        if_neg hne]
      exact Branches.isLeaf_insert? hothers ho hi

theorem Wild.isLeaf_insert? {place : Place} {leaf : Leaf α} :
    ∀ {wild wild' : Wild α} {symbols : List Symbol}, wild.IsSound →
      wild.insert? place leaf symbols = some (wild', .ok ()) →
      IsLeaf leaf (wild'.find? (sample symbols))
  | .nothing, _, _, _, h => by simp [Wild.insert?] at h
  | .param own endings, wild', symbols, ⟨he, ha⟩, h => by
    have hins := Wild.inserted_of_insert? h
    generalize hr : Except.ok () = result at hins
    cases hins with
    | conflict => cases hr
    | several => cases hr
    | settled =>
      rw [Pattern.sample_cons, Pattern.sample_nil, Symbol.sample, Wild.find?_param,
        Branches.settle?_brace _ he.1, settle_of_ok hr.symm]
      rfl
    | within _ hi =>
      subst hr
      rw [Pattern.sample_cons, Symbol.sample, Wild.find?_param]
      exact Branches.isLeaf_insertEnding? he.2 ha hi
    | @placed _ _ ending below _ _ hn hne hseg hg =>
      subst hr
      have hthrough := Pattern.through_sample hseg
      rw [Pattern.sample_cons, Symbol.sample, Wild.find?_param,
        Branches.settle?_place _ _ (hthrough.trans (lead_under ..).symm)
          (by rw [lead_under]; exact Branches.not_mem_of_insertEnding? hseg hn),
        Pattern.sample_append, Pattern.sample_bytes, hg.find?_under]
      exact hg.isLeaf.take
  | .catchAll name own, wild', symbols, _, h => by
    obtain ⟨-, hr⟩ := Prod.mk.inj (Option.some.inj h)
    cases hr

theorem Branches.isLeaf_insertEnding? {before : List Symbol} {leaf : Leaf α} :
    ∀ {endings endings' : Branches α} {symbols : List Symbol} {own : Option (Leaf α)},
      (endings.leads.Pairwise fun lead later => later.length ≤ lead.length) →
      endings.AllSound →
      endings.insertEnding? before leaf symbols = some (endings', .ok ()) →
      IsLeaf leaf (endings'.settle? own (brace :: sample symbols))
  | .nil, _, _, _, _, _, h => by simp [Branches.insertEnding?] at h
  | .cons key tree others, endings', symbols, own, hp, ⟨ht, ho⟩, h => by
    obtain ⟨hlater, hothers⟩ := List.pairwise_cons.mp hp
    obtain ⟨hl, rfl, hr⟩ | ⟨hne, others', hi, rfl⟩ := Branches.exists_of_insertEnding? h
    · have hlead := lead_insert before leaf (hl ▸ Pattern.prefix_segment symbols)
      rw [Branches.settle?_cons _ _ _ ((Pattern.through_sample hl.symm).trans hlead.symm)]
      exact (isLeaf_insert before leaf ht (Prod.ext rfl hr.symm)).take
    · obtain ⟨ending, hm, hseg⟩ := Branches.exists_of_mem_insertEnding? hi
      have hthrough := Pattern.through_sample hseg
      rw [Branches.settle?_of_ne _ _ _ (hthrough ▸ hlater ending hm)
        (by rw [hthrough]; rintro rfl; exact hne hseg.symm)]
      exact Branches.isLeaf_insertEnding? hothers ho hi

end

end RouteTree

end RequestRouting
