import RequestRouting.Proofs.Route.Tree

/-!
# Patterns that a tree refuses

A pattern is refused either for its form or for a conflict with another pattern. A tree may be
different after a conflict, as it may have been split where the pattern would have branched off, and
branches may have moved. Nothing that is found in it is different, though.
-/

namespace RequestRouting

namespace Pattern

/-- Symbols that take text once in a segment at most, and with nothing behind a catch-all. -/
def IsSpread (symbols : List Symbol) : Prop :=
  ∀ s rest, s :: rest <:+ symbols → s.isWild = true →
    (segment rest).any Symbol.isWild = false ∧ ∀ name, s = .catchAll name → rest = []

/-- Why a pattern is refused: for its form, or for a conflict, in which case something holds. -/
inductive Refusal (symbols : List Symbol) (p : Prop) : PatternError → Prop where
  | conflict (other : String) (h : p) : Refusal symbols p (.conflict other)
  | several (h : ¬IsSpread symbols) : Refusal symbols p .severalParameters
  | misplaced (h : ¬IsSpread symbols) : Refusal symbols p .misplacedCatchAll

variable {symbols rest : List Symbol} {p q : Prop} {e : PatternError}

theorem IsSpread.of_suffix (h : IsSpread symbols) (hs : rest <:+ symbols) : IsSpread rest :=
  fun s more hm => h s more (hm.trans hs)

theorem not_isSpread_several (lead : List Symbol) (h : (segment rest).any Symbol.isWild = true) :
    ¬IsSpread (lead ++ .param :: rest) := by
  intro hs
  have hone := (hs .param rest (List.suffix_append ..) rfl).1
  rw [h] at hone
  cases hone

theorem not_isSpread_misplaced (lead : List Symbol) (name : String) (h : rest ≠ []) :
    ¬IsSpread (lead ++ .catchAll name :: rest) :=
  fun hs => h ((hs (.catchAll name) rest (List.suffix_append ..) rfl).2 name rfl)

theorem Refusal.imp (h : Refusal symbols p e) (hp : p → q) : Refusal symbols q e := by
  cases h with
  | conflict other h => exact .conflict other (hp h)
  | several h => exact .several h
  | misplaced h => exact .misplaced h

/-- What is refused for the form of what is left of it is refused for its form. -/
theorem Refusal.of_suffix (h : Refusal rest p e) (hs : rest <:+ symbols) : Refusal symbols p e := by
  cases h with
  | conflict other h => exact .conflict other h
  | several h => exact .several fun hw => h (hw.of_suffix hs)
  | misplaced h => exact .misplaced fun hw => h (hw.of_suffix hs)

end Pattern

namespace RouteTree

open Pattern (Symbol Refusal)

variable {α : Type} {symbols : List Symbol} {leaf : Leaf α} {own : Option (Leaf α)}
  {key b : UInt8} {shared lower : List UInt8} {weight weight' : Nat}
  {tree tree' : RouteTree α} {branches : Branches α} {wild : Wild α} {p : Prop}
  {e : PatternError}

/-! ## What is found in trees that look different -/

theorem isPrefixOf?_append (front back path : List UInt8) :
    (front ++ back).isPrefixOf? path = (front.isPrefixOf? path).bind (back.isPrefixOf? ·) := by
  induction front generalizing path with
  | nil => simp [List.isPrefixOf?]
  | cons b front ih =>
    cases path with
    | nil => simp [List.isPrefixOf?]
    | cons c path =>
      by_cases h : b = c
      · simp [List.isPrefixOf?, h, ih]
      · simp [List.isPrefixOf?, h]

/-- A tree that is split finds what it found before. -/
theorem find?_split (path : List UInt8) :
    (node shared none weight' (.cons b (.node (b :: lower) own weight branches wild) .nil)
      .nothing).find? path = (node (shared ++ b :: lower) own weight branches wild).find? path := by
  simp only [find?, Branches.find?, Wild.find?, isPrefixOf?_append]
  cases hs : shared.isPrefixOf? path with
  | none => simp
  | some left =>
    cases left with
    | nil => simp [List.isPrefixOf?]
    | cons c left =>
      by_cases h : b = c
      · subst c
        simp only [if_pos, Option.bind_some]
        split <;> simp only [*]
      · simp [List.isPrefixOf?, h]

/-- It makes no difference where a branch is as long as no other branch has its key. -/
theorem Branches.find?_push (h : key ∉ branches.keys) (path : List UInt8) :
    (branches.push key tree).find? b path = (Branches.cons key tree branches).find? b path := by
  cases branches with
  | nil => rfl
  | cons k t others =>
    have hk : key ≠ k := fun he => h (he ▸ List.mem_cons_self)
    rw [push]
    split
    · simp only [find?]
      by_cases hb : k = b
      · rw [if_pos hb, if_neg (hb ▸ hk), if_pos hb]
      · rw [if_neg hb, if_neg hb]
    · rfl

/-! ## What is refused -/

theorem Grown.refusal (h : Grown leaf symbols tree (.error e)) : Refusal symbols p e := by
  generalize hr : Except.error e = result at h
  induction h with
  | bytes => cases hr
  | catchAll => cases hr
  | misplaced lead name hne =>
    cases hr
    exact .misplaced (Pattern.not_isSpread_misplaced _ name hne)
  | several lead hw =>
    cases hr
    exact .several (Pattern.not_isSpread_several _ hw)
  | param => cases hr
  | @ending lead ending below _ _ _ _ _ ih =>
    refine (ih hr).of_suffix ⟨lead.map .byte ++ .param :: ending.map .byte, ?_⟩
    simp

theorem Extended.refusal (h : Extended leaf tree symbols tree' (.error e)) :
    Refusal symbols (tree' = tree) e := by
  cases h with
  | conflict _ _ other => exact .conflict other rfl
  | branch _ _ _ _ _ h => exact h.refusal
  | wild _ _ _ _ _ _ h => exact h.refusal

/-- A pattern is refused where another one ends. -/
theorem exists_of_settle {before : List Symbol}
    (h : (settle before symbols leaf own).2 = .error e) :
    (settle before symbols leaf own).1 = own ∧ ∃ other, e = .conflict other := by
  cases own with
  | none => cases h
  | some other =>
    cases h
    exact ⟨rfl, _, rfl⟩

mutual

/-- What is found in a tree isn't different after a conflict. -/
theorem refusal_insert (before : List Symbol) (leaf : Leaf α) :
    ∀ {tree tree' : RouteTree α} {symbols : List Symbol} {e : PatternError}, tree.IsSound →
      tree.insert before leaf symbols = (tree', .error e) →
      Refusal symbols (∀ path, tree'.find? path = tree.find? path) e
  | .node lead own weight branches wild, tree', symbols, e, h, hi => by
    have hins := inserted_insert before leaf (.node lead own weight branches wild) symbols
    rw [hi] at hins
    obtain ⟨-, -, hn, ha, hw⟩ := h
    generalize hr : Except.error e = result at hins
    cases hins with
    | split _ _ _ _ _ he =>
      subst hr
      refine (he.refusal.of_suffix (List.suffix_append ..)).imp ?_
      rintro rfl path
      exact find?_split path
    | settled =>
      obtain ⟨ho, other, rfl⟩ := exists_of_settle hr.symm
      refine .conflict other fun path => ?_
      simp only [find?, ho]
    | branch _ _ _ _ hi =>
      subst hr
      refine ((Branches.refusal_insert? hn ha hi).of_suffix (List.suffix_append ..)).imp ?_
      intro hsame path
      simp only [find?, hsame]
    | wild _ _ _ _ _ hi =>
      subst hr
      refine ((Wild.refusal_insert? hw hi).of_suffix (List.suffix_append ..)).imp ?_
      intro hsame path
      simp only [find?, hsame]
    | extended _ _ _ _ _ he =>
      subst hr
      refine (he.refusal.of_suffix (List.suffix_append ..)).imp ?_
      rintro rfl path
      simp only [find?]

theorem Branches.refusal_insert? {before : List Symbol} {leaf : Leaf α} :
    ∀ {branches branches' : Branches α} {b : UInt8} {symbols : List Symbol} {e : PatternError},
      branches.keys.Nodup → branches.AllSound →
      branches.insert? before leaf b symbols = some (branches', .error e) →
      Refusal symbols (∀ c path, branches'.find? c path = branches.find? c path) e
  | .nil, _, _, _, _, _, _, h => by simp [Branches.insert?] at h
  | .cons key tree others, branches', b, symbols, e, hn, ⟨ht, ho⟩, h => by
    obtain ⟨hkey, hothers⟩ := List.nodup_cons.mp hn
    obtain ⟨-, rfl, hr⟩ | ⟨-, others', hi, rfl⟩ := Branches.exists_of_insert? h
    · refine (refusal_insert before leaf ht (Prod.ext rfl hr.symm)).imp fun hsame c path => ?_
      simp only [Branches.find?, hsame]
    · refine (Branches.refusal_insert? hothers ho hi).imp fun hsame c path => ?_
      rw [Branches.find?_push (by rwa [(Branches.keys_insert? hi).mem_iff])]
      simp only [Branches.find?, hsame]

theorem Wild.refusal_insert? {place : Place} {leaf : Leaf α} :
    ∀ {wild wild' : Wild α} {symbols : List Symbol} {e : PatternError}, wild.IsSound →
      wild.insert? place leaf symbols = some (wild', .error e) →
      Refusal symbols (∀ path, wild'.find? path = wild.find? path) e
  | .nothing, _, _, _, _, h => by simp [Wild.insert?] at h
  | .param own endings, wild', symbols, e, ⟨_, ha⟩, h => by
    have hins := Wild.inserted_of_insert? h
    generalize hr : Except.error e = result at hins
    cases hins with
    | conflict _ _ other =>
      cases hr
      exact .conflict other fun _ => rfl
    | several _ hw =>
      cases hr
      exact .several (Pattern.not_isSpread_several [] hw)
    | settled =>
      obtain ⟨ho, other, rfl⟩ := exists_of_settle hr.symm
      refine .conflict other fun path => ?_
      rw [ho]
    | within _ hi =>
      subst hr
      refine ((Branches.refusal_insertEnding? ha hi).of_suffix (List.suffix_cons ..)).imp ?_
      intro hsame path
      simp only [Wild.find?, hsame]
    | @placed _ _ ending _ _ _ _ _ _ hg =>
      subst hr
      exact hg.refusal.of_suffix ⟨.param :: ending.map .byte, by simp⟩
  | .catchAll name own, wild', symbols, e, _, h => by
    obtain ⟨rfl, hr⟩ := Prod.mk.inj (Option.some.inj h)
    cases hr
    exact .conflict _ fun _ => rfl

theorem Branches.refusal_insertEnding? {before : List Symbol} {leaf : Leaf α} :
    ∀ {endings endings' : Branches α} {symbols : List Symbol} {e : PatternError},
      endings.AllSound →
      endings.insertEnding? before leaf symbols = some (endings', .error e) →
      Refusal symbols (∀ own path, endings'.settle? own path = endings.settle? own path) e
  | .nil, _, _, _, _, h => by simp [Branches.insertEnding?] at h
  | .cons key tree others, endings', symbols, e, ⟨ht, ho⟩, h => by
    obtain ⟨hl, rfl, hr⟩ | ⟨-, others', hi, rfl⟩ := Branches.exists_of_insertEnding? h
    · have hlead := lead_insert before leaf (hl ▸ Pattern.prefix_segment symbols)
      refine (refusal_insert before leaf ht (Prod.ext rfl hr.symm)).imp fun hsame own path => ?_
      simp only [Branches.settle?, hlead, hsame]
    · refine (Branches.refusal_insertEnding? ho hi).imp fun hsame own path => ?_
      simp only [Branches.settle?, hsame]

end

end RouteTree

end RequestRouting
