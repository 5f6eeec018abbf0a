import Mathlib.Data.List.Nodup
import RequestRouting.Route.Tree.Insert

/-!
# Well-formed trees of patterns

All that patterns are added to is a well-formed tree: its branches are told apart by different
bytes, the endings of a parameter are in order, the longest first, and no brace is written in it.
This is so whether a pattern is added or refused.
-/

namespace RequestRouting

namespace Pattern

/-- The opening brace, which isn't written in any pattern. -/
def brace : UInt8 := 0x7B

variable {symbols rest : List Symbol} {lead shared lower : List UInt8}

theorem eq_append_of_share (h : share lead symbols = (shared, lower, rest)) :
    lead = shared ++ lower ∧ symbols = shared.map .byte ++ rest := by
  induction lead, symbols using share.induct generalizing shared lower rest with
  | case1 lead b symbols shared' lower' rest' hs ih =>
    rw [share, if_pos rfl, hs] at h
    cases h
    obtain ⟨rfl, rfl⟩ := ih hs
    exact ⟨rfl, rfl⟩
  | case2 l lead b symbols hne =>
    rw [share, if_neg hne] at h
    cases h
    exact ⟨rfl, rfl⟩
  | case3 lead symbols hne =>
    rw [share.eq_2 _ _ hne] at h
    cases h
    exact ⟨rfl, rfl⟩

/-- The bytes behind what is shared are different. -/
theorem ne_of_share {b c : UInt8} (h : share lead symbols = (shared, b :: lower, .byte c :: rest)) :
    b ≠ c := by
  induction lead, symbols using share.induct generalizing shared with
  | case1 lead b symbols shared' lower' rest' hs ih =>
    rw [share, if_pos rfl, hs] at h
    cases h
    exact ih hs
  | case2 l lead d symbols hne =>
    rw [share, if_neg hne] at h
    cases h
    exact hne
  | case3 lead symbols hne =>
    rw [share.eq_2 _ _ hne] at h
    cases h
    exact absurd rfl (hne _ _ _ _ rfl)

/-- The bytes a pattern starts with, and what follows them. -/
theorem bytes_append (symbols : List Symbol) :
    (bytes symbols).map .byte ++ symbols.drop (bytes symbols).length = symbols := by
  induction symbols using bytes.induct with
  | case1 b rest ih => simpa [bytes] using ih
  | case2 symbols h => rw [bytes.eq_2 _ h]; rfl

theorem drop_bytes_ne (b : UInt8) (symbols : List Symbol) :
    symbols.drop (bytes symbols).length ≠ .byte b :: rest := by
  induction symbols using bytes.induct with
  | case1 b rest ih => simpa [bytes] using ih
  | case2 symbols h => rw [bytes.eq_2 _ h]; exact h _ _

theorem map_bytes (h : symbols.any Symbol.isWild = false) :
    (bytes symbols).map .byte = symbols := by
  induction symbols with
  | nil => rfl
  | cons s symbols ih =>
    rw [List.any_cons, Bool.or_eq_false_iff] at h
    cases s with
    | byte b => rw [bytes, List.map_cons, ih h.2]
    | param => cases h.1
    | catchAll name => cases h.1

theorem prefix_segment (symbols : List Symbol) : segment symbols <+: symbols := by
  conv_rhs => rw [← List.takeWhile_append_dropWhile (p := (· ≠ .byte slash)) (l := symbols)]
  exact (List.prefix_append_right_inj _).mpr (List.take_prefix 1 _)

theorem segment_append (symbols : List Symbol) :
    segment symbols ++ symbols.drop (segment symbols).length = symbols :=
  List.prefix_iff_eq_append.mp (prefix_segment symbols)

theorem segment_eq_nil_iff : segment symbols = [] ↔ symbols = [] := by
  constructor
  · intro h
    cases symbols with
    | nil => rfl
    | cons s symbols => by_cases hs : s = .byte slash <;> simp [segment, through, hs] at h
  · rintro rfl
    rfl

end Pattern

namespace RouteTree

open Pattern (Symbol brace segment)

variable {α : Type}

/-- The bytes that branches are told apart by. -/
def Branches.keys : Branches α → List UInt8
  | .nil => []
  | .cons key _ others => key :: others.keys

/-- The bytes that the branches of a tree are told apart by. -/
def keys : RouteTree α → List UInt8
  | .node _ _ _ branches _ => branches.keys

/-- The bytes that lead to branches. -/
def Branches.leads : Branches α → List (List UInt8)
  | .nil => []
  | .cons _ tree others => tree.lead :: others.leads

/-- Whether the longest endings come first, and none of them is empty. -/
def AreEndings (leads : List (List UInt8)) : Prop :=
  [] ∉ leads ∧ leads.Pairwise fun lead later => later.length ≤ lead.length

mutual

/-- Whether branches are told apart by different bytes, endings are in order, and no brace is
written, everywhere in a tree. -/
def IsSound : RouteTree α → Prop
  | .node lead _ _ branches wild =>
    brace ∉ lead ∧ brace ∉ branches.keys ∧ branches.keys.Nodup ∧ branches.AllSound ∧ wild.IsSound

def Branches.AllSound : Branches α → Prop
  | .nil => True
  | .cons _ tree others => tree.IsSound ∧ others.AllSound

def Wild.IsSound : Wild α → Prop
  | .nothing => True
  | .param _ endings => AreEndings endings.leads ∧ endings.AllSound
  | .catchAll _ _ => True

end

variable {before symbols rest : List Symbol} {leaf : Leaf α} {own : Option (Leaf α)}
  {key b : UInt8} {lead ending : List UInt8} {weight : Nat} {place : Place}
  {tree tree' : RouteTree α} {branches branches' others : Branches α} {wild wild' : Wild α}
  {result : Except PatternError Unit}

/-- The tree of a pattern, and whether the pattern is refused: all that growing it can do. -/
inductive Grown (leaf : Leaf α) : List Symbol → RouteTree α → Except PatternError Unit → Prop where
  | bytes (lead : List UInt8) :
      Grown leaf (lead.map .byte) (.node lead leaf 1 .nil .nothing) (.ok ())
  | catchAll (lead : List UInt8) (name : String) :
      Grown leaf (lead.map .byte ++ [.catchAll name])
        (.node lead none 1 .nil (.catchAll name leaf)) (.ok ())
  | misplaced (lead : List UInt8) (name : String) {rest : List Symbol} (h : rest ≠ []) :
      Grown leaf (lead.map .byte ++ .catchAll name :: rest)
        (.node [] none 1 .nil .nothing) (.error .misplacedCatchAll)
  | several (lead : List UInt8) {rest : List Symbol} (h : (segment rest).any Symbol.isWild = true) :
      Grown leaf (lead.map .byte ++ .param :: rest)
        (.node lead none 1 .nil .nothing) (.error .severalParameters)
  | param (lead : List UInt8) :
      Grown leaf (lead.map .byte ++ [.param]) (.node lead none 1 .nil (.param leaf .nil)) (.ok ())
  | ending (lead ending : List UInt8) {below : List Symbol} {tree : RouteTree α}
      {result : Except PatternError Unit} (hne : ending ≠ [])
      (hs : segment (ending.map .byte ++ below) = ending.map .byte)
      (h : Grown leaf below tree result) :
      Grown leaf (lead.map .byte ++ .param :: (ending.map .byte ++ below))
        (.node lead none 1 .nil (.param none
          (.cons (ending.headD Pattern.slash) (under ending below tree) .nil))) result

theorem grown_grow (leaf : Leaf α) (symbols : List Symbol) :
    Grown leaf symbols (grow leaf symbols).1 (grow leaf symbols).2 := by
  have hb := Pattern.bytes_append symbols
  rw [grow]
  split
  · rename_i hl
    rw [hl, List.append_nil] at hb
    conv in Grown _ _ => rw [← hb]
    exact .bytes _
  · rename_i name rest hl
    rw [hl] at hb
    conv in Grown _ _ => rw [← hb]
    by_cases he : rest = []
    · subst he
      exact .catchAll _ name
    · rw [if_neg (by simpa using he)]
      exact .misplaced _ name he
  · rename_i s rest hs hl
    obtain rfl : s = .param := by
      cases s with
      | byte b => exact absurd hl (Pattern.drop_bytes_ne b symbols)
      | param => rfl
      | catchAll name => exact absurd rfl (hs name)
    rw [hl] at hb
    conv in Grown _ _ => rw [← hb]
    cases hw : (segment rest).any Symbol.isWild with
    | true =>
      simp only [hw, if_true]
      exact .several _ hw
    | false =>
      have hbytes := Pattern.map_bytes hw
      have hrest := Pattern.segment_append rest
      by_cases he : segment rest = []
      · obtain rfl := Pattern.segment_eq_nil_iff.mp he
        simp only [he, List.any_nil, Bool.false_eq_true, if_false, List.isEmpty_nil, if_true]
        exact .param _
      · have ih := grown_grow leaf (rest.drop (segment rest).length)
        have hne : Pattern.bytes (segment rest) ≠ [] := fun hn => he (by rw [← hbytes, hn]; rfl)
        have hg := Grown.ending (Pattern.bytes symbols) _ hne (by rw [hbytes, hrest]) ih
        rw [hbytes, hrest] at hg
        simpa [hw, he] using hg
  termination_by symbols.length
  decreasing_by
    have := congrArg List.length hl
    simp only [List.length_drop, List.length_cons] at this ⊢
    omega

/-! ## Putting branches in their places -/

theorem Branches.keys_append (key : UInt8) (tree : RouteTree α) :
    ∀ branches : Branches α, (branches.append key tree).keys = branches.keys ++ [key]
  | .nil => rfl
  | .cons k _ others => congrArg (k :: ·) (keys_append key tree others)

theorem Branches.keys_push (key : UInt8) (tree : RouteTree α) (branches : Branches α) :
    (branches.push key tree).keys.Perm (key :: branches.keys) := by
  cases branches with
  | nil => exact .refl _
  | cons k t others =>
    rw [push]
    split
    · exact .swap key k others.keys
    · exact .refl _

theorem Branches.allSound_append (h : tree.IsSound) :
    ∀ {branches : Branches α}, branches.AllSound → (branches.append key tree).AllSound
  | .nil, _ => ⟨h, trivial⟩
  | .cons _ _ _, ⟨ht, ho⟩ => ⟨ht, allSound_append h ho⟩

theorem Branches.allSound_push (h : tree.IsSound) (hb : branches.AllSound) :
    (branches.push key tree).AllSound := by
  cases branches with
  | nil => exact ⟨h, trivial⟩
  | cons k t others =>
    rw [push]
    split
    · exact ⟨hb.1, h, hb.2⟩
    · exact ⟨h, hb⟩

theorem Branches.allSound_place (h : tree.IsSound) :
    ∀ {branches : Branches α}, branches.AllSound → (branches.place key tree).AllSound
  | .nil, _ => ⟨h, trivial⟩
  | .cons _ _ _, ⟨ht, ho⟩ => by
    rw [place]
    split
    · exact ⟨h, ht, ho⟩
    · exact ⟨ht, allSound_place h ho⟩

theorem Branches.leads_place (key : UInt8) (tree : RouteTree α) :
    ∀ branches : Branches α, (branches.place key tree).leads.Perm (tree.lead :: branches.leads)
  | .nil => .refl _
  | .cons k t others => by
    rw [place]
    split
    · exact .refl _
    · exact ((leads_place key tree others).cons t.lead).trans (.swap ..)

/-- An ending is put before those that are shorter. -/
theorem Branches.areEndings_place (key : UInt8) (h : tree.lead ≠ []) :
    ∀ {endings : Branches α}, AreEndings endings.leads → AreEndings (endings.place key tree).leads
  | .nil, _ => ⟨by simpa [place, leads] using h.symm, List.pairwise_singleton _ _⟩
  | .cons k t others, ⟨hne, hp⟩ => by
    have hmem := (leads_place key tree (.cons k t others)).mem_iff (a := [])
    refine ⟨by rw [hmem, List.mem_cons, not_or]; exact ⟨h.symm, hne⟩, ?_⟩
    obtain ⟨hlater, hothers⟩ := List.pairwise_cons.mp hp
    rw [place]
    split
    · rename_i hlt
      refine List.pairwise_cons.mpr ⟨?_, hp⟩
      rintro lead (_ | ⟨_, hl⟩)
      · exact Nat.le_of_lt hlt
      · exact Nat.le_trans (hlater lead hl) (Nat.le_of_lt hlt)
    · rename_i hge
      have hne' : [] ∉ others.leads := fun hn => hne (List.mem_cons_of_mem _ hn)
      refine List.pairwise_cons.mpr ⟨fun lead hl => ?_, (areEndings_place key h ⟨hne', hothers⟩).2⟩
      rcases List.mem_cons.mp ((leads_place key tree others).mem_iff.mp hl) with rfl | hl
      · exact Nat.le_of_not_lt hge
      · exact hlater lead hl

/-! ## Well-formed trees -/

theorem lead_under (ending : List UInt8) (symbols : List Symbol) (tree : RouteTree α) :
    (under ending symbols tree).lead = ending := by
  unfold under
  split
  · rfl
  · cases tree
    rfl

theorem IsSound.withLead (h : tree.IsSound) (hl : brace ∉ lead) : (tree.withLead lead).IsSound := by
  cases tree
  exact ⟨hl, h.2⟩

theorem IsSound.withWeight (h : tree.IsSound) : (tree.withWeight weight).IsSound := by
  cases tree
  exact h

theorem IsSound.under (h : tree.IsSound) (hl : brace ∉ ending) (hs : .byte brace ∉ symbols) :
    (RouteTree.under ending symbols tree).IsSound := by
  unfold RouteTree.under
  split
  · rename_i b rest
    have hb : brace ≠ b := fun he => hs (he ▸ List.mem_cons_self)
    exact ⟨hl, by simpa [Branches.keys] using hb, List.nodup_singleton _, ⟨h, trivial⟩, trivial⟩
  · exact h.withLead hl

theorem isSound_node (hl : brace ∉ lead) (hw : wild.IsSound) :
    (node lead own weight .nil wild).IsSound :=
  ⟨hl, List.not_mem_nil, List.nodup_nil, trivial, hw⟩

theorem Grown.isSound (h : Grown leaf symbols tree result) (hs : .byte brace ∉ symbols) :
    tree.IsSound := by
  induction h with
  | bytes lead => exact isSound_node (by simpa using hs) trivial
  | catchAll lead name => exact isSound_node (by simpa using hs) trivial
  | misplaced lead name _ => exact isSound_node List.not_mem_nil trivial
  | several lead _ => exact isSound_node (by simp_all) trivial
  | param lead =>
    exact isSound_node (by simpa using hs) ⟨by simp [AreEndings, Branches.leads], trivial⟩
  | ending lead ending hne hseg hg ih =>
    obtain ⟨hl, he, hb⟩ : brace ∉ lead ∧ brace ∉ ending ∧ Symbol.byte brace ∉ _ := by
      simpa [not_or] using hs
    refine isSound_node hl ⟨?_, (ih hb).under he hb, trivial⟩
    simpa [AreEndings, Branches.leads, lead_under] using hne.symm

/-- A tree may be split within its lead. -/
theorem IsSound.split {shared lower : List UInt8} {weight' : Nat}
    (h : (node (shared ++ b :: lower) own weight branches wild).IsSound) :
    (node shared none weight' (.cons b (.node (b :: lower) own weight branches wild) .nil)
      .nothing).IsSound := by
  obtain ⟨hl, hrest⟩ := h
  obtain ⟨hshared, hlower⟩ : brace ∉ shared ∧ brace ∉ b :: lower := by
    rwa [List.mem_append, not_or] at hl
  have hb : brace ∉ [b] := fun hm => hlower (List.mem_cons.mpr (Or.inl (List.mem_singleton.mp hm)))
  exact ⟨hshared, hb, List.nodup_singleton b, ⟨⟨hlower, hrest⟩, trivial⟩, trivial⟩

theorem IsSound.wild_tree (h : tree.IsSound) : tree.wild.IsSound := by
  cases tree
  exact h.2.2.2.2

/-- A tree that a pattern is added to at the end of its lead: all that extending it can do. -/
inductive Extended (leaf : Leaf α) : RouteTree α → List Symbol → RouteTree α →
    Except PatternError Unit → Prop where
  | conflict (tree : RouteTree α) (symbols : List Symbol) (other : String) :
      Extended leaf tree symbols tree (.error (.conflict other))
  | leaf (lead : List UInt8) (own : Option (Leaf α)) (weight : Nat) (branches : Branches α)
      (wild : Wild α) :
      Extended leaf (.node lead own weight branches wild) []
        (.node lead leaf weight branches wild) (.ok ())
  | branch (lead : List UInt8) (own : Option (Leaf α)) (weight : Nat) (branches : Branches α)
      (wild : Wild α) {b : UInt8} {rest : List Symbol} {tree : RouteTree α}
      {result : Except PatternError Unit} (h : Grown leaf (.byte b :: rest) tree result) :
      Extended leaf (.node lead own weight branches wild) (.byte b :: rest)
        (.node lead own weight (branches.append b tree) wild) result
  | wild (lead : List UInt8) (own : Option (Leaf α)) (weight : Nat) (branches : Branches α)
      (wild : Wild α) {s : Symbol} {rest : List Symbol} {tree : RouteTree α}
      {result : Except PatternError Unit} (hs : s.isWild = true)
      (h : Grown leaf (s :: rest) tree result) :
      Extended leaf (.node lead own weight branches wild) (s :: rest)
        (.node lead own weight branches tree.wild) result

theorem extended_extend (before : List Symbol) (leaf : Leaf α) (symbols : List Symbol)
    (tree : RouteTree α) :
    Extended leaf tree symbols (extend before leaf symbols tree).1
      (extend before leaf symbols tree).2 := by
  obtain ⟨lead, own, weight, branches, wild⟩ := tree
  simp only [extend]
  split
  · exact .leaf ..
  · split
    · exact .conflict ..
    · exact .branch _ _ _ _ _ (grown_grow leaf _)
  · rename_i hnil hbyte
    obtain ⟨s, rest, rfl⟩ := List.exists_cons_of_ne_nil hnil
    split
    · exact .conflict ..
    · refine .wild _ _ _ _ _ ?_ (grown_grow leaf _)
      cases s with
      | byte b => exact absurd rfl (hbyte b rest)
      | param => rfl
      | catchAll name => rfl

theorem Extended.lead_eq (h : Extended leaf tree symbols tree' result) :
    tree'.lead = tree.lead := by
  cases h <;> rfl

theorem Extended.isSound (he : Extended leaf tree symbols tree' result) (h : tree.IsSound)
    (hs : .byte brace ∉ symbols) (hb : ∀ b rest, symbols = .byte b :: rest → b ∉ tree.keys) :
    tree'.IsSound := by
  cases he with
  | conflict => exact h
  | leaf => exact h
  | @branch lead own weight branches wild b rest tree _ hg =>
    obtain ⟨hl, hk, hn, ha, hw⟩ := h
    have hne : brace ≠ b := fun he => hs (he ▸ List.mem_cons_self)
    refine ⟨hl, ?_, ?_, Branches.allSound_append (hg.isSound hs) ha, hw⟩
    · simp [Branches.keys_append, hk, hne]
    · rw [Branches.keys_append]
      exact hn.append (List.nodup_singleton b) (by simpa [keys] using hb b rest rfl)
  | wild lead own weight branches wild _ hg =>
    obtain ⟨hl, hk, hn, ha, hw⟩ := h
    exact ⟨hl, hk, hn, ha, (hg.isSound hs).wild_tree⟩

theorem Branches.insert?_eq_none_iff (before : List Symbol) (leaf : Leaf α) (b : UInt8)
    (symbols : List Symbol) :
    ∀ branches : Branches α, branches.insert? before leaf b symbols = none ↔ b ∉ branches.keys
  | .nil => by simp [insert?, keys]
  | .cons k t others => by
    rw [insert?]
    split
    · simp [keys, *]
    · simp [keys, Ne.symm ‹_›, insert?_eq_none_iff before leaf b symbols others]

theorem Branches.keys_insert? :
    ∀ {branches branches' : Branches α} {result : Except PatternError Unit},
      branches.insert? before leaf b symbols = some (branches', result) →
        branches'.keys.Perm branches.keys
  | .nil, _, _, h => by simp [insert?] at h
  | .cons k t others, branches', result, h => by
    rw [insert?] at h
    split at h
    · obtain ⟨rfl, -⟩ : Branches.cons k _ others = branches' ∧ _ := by simpa using h
      exact .refl _
    · obtain ⟨⟨others', r⟩, ho, he⟩ := Option.map_eq_some_iff.mp h
      obtain ⟨rfl, -⟩ : others'.push k t = branches' ∧ r = result := by simpa using he
      exact (keys_push k t others').trans ((keys_insert? ho).cons k)

/-! ## Adding patterns -/

/-- A tree that a pattern is added to: all that adding it can do. -/
inductive Inserted (leaf : Leaf α) : RouteTree α → List Symbol → RouteTree α →
    Except PatternError Unit → Prop where
  | split {shared lower : List UInt8} (own : Option (Leaf α)) (weight : Nat)
      (branches : Branches α) (wild : Wild α) {b : UInt8} {symbols : List Symbol}
      {tree : RouteTree α} {result : Except PatternError Unit}
      (hb : ∀ c rest, symbols = .byte c :: rest → b ≠ c)
      (h : Extended leaf (.node shared none (weight + 1)
        (.cons b (.node (b :: lower) own weight branches wild) .nil) .nothing) symbols tree
        result) :
      Inserted leaf (.node (shared ++ b :: lower) own weight branches wild)
        (shared.map .byte ++ symbols) tree result
  | settled (before : List Symbol) (lead : List UInt8) (own : Option (Leaf α)) (weight : Nat)
      (branches : Branches α) (wild : Wild α) :
      Inserted leaf (.node lead own weight branches wild) (lead.map .byte)
        (.node lead (settle before [] leaf own).1 (weight + 1) branches wild)
        (settle before [] leaf own).2
  | branch {before : List Symbol} (lead : List UInt8) (own : Option (Leaf α)) (weight : Nat)
      {branches branches' : Branches α} (wild : Wild α) {b : UInt8} {rest : List Symbol}
      {result : Except PatternError Unit}
      (h : branches.insert? before leaf b (.byte b :: rest) = some (branches', result)) :
      Inserted leaf (.node lead own weight branches wild) (lead.map .byte ++ .byte b :: rest)
        (.node lead own (weight + 1) branches' wild) result
  | wild {place : Place} (lead : List UInt8) (own : Option (Leaf α)) (weight : Nat)
      (branches : Branches α) {wild wild' : Wild α} {s : Symbol} {rest : List Symbol}
      {result : Except PatternError Unit} (hs : s.isWild = true)
      (h : wild.insert? place leaf (s :: rest) = some (wild', result)) :
      Inserted leaf (.node lead own weight branches wild) (lead.map .byte ++ s :: rest)
        (.node lead own (weight + 1) branches wild') result
  | extended (lead : List UInt8) (own : Option (Leaf α)) (weight : Nat) {branches : Branches α}
      (wild : Wild α) {symbols : List Symbol} {tree : RouteTree α}
      {result : Except PatternError Unit}
      (hb : ∀ b rest, symbols = .byte b :: rest → b ∉ branches.keys)
      (h : Extended leaf (.node lead own (weight + 1) branches wild) symbols tree result) :
      Inserted leaf (.node lead own weight branches wild) (lead.map .byte ++ symbols) tree result

theorem inserted_insert (before : List Symbol) (leaf : Leaf α) (tree : RouteTree α)
    (symbols : List Symbol) :
    Inserted leaf tree symbols (tree.insert before leaf symbols).1
      (tree.insert before leaf symbols).2 := by
  obtain ⟨lead, own, weight, branches, wild⟩ := tree
  rw [insert]
  split
  · rename_i shared b lower rest hshare
    obtain ⟨rfl, rfl⟩ := Pattern.eq_append_of_share hshare
    refine .split _ _ _ _ ?_ (extended_extend ..)
    rintro c rest rfl
    exact Pattern.ne_of_share hshare
  · rename_i rest hshare
    obtain ⟨rfl, rfl⟩ := Pattern.eq_append_of_share hshare
    rw [List.append_nil]
    simp only
    split
    · rw [List.append_nil]
      exact .settled ..
    · split
      · exact .branch _ _ _ _ ‹_›
      · rename_i hn
        refine .extended _ _ _ _ ?_ (extended_extend ..)
        rintro _ _ ⟨⟩
        exact (Branches.insert?_eq_none_iff ..).mp hn
    · rename_i hnil hbyte
      obtain ⟨s, rest, rfl⟩ := List.exists_cons_of_ne_nil hnil
      split
      · refine .wild _ _ _ _ ?_ ‹_›
        cases s with
        | byte b => exact absurd rfl (hbyte b rest)
        | param => rfl
        | catchAll name => rfl
      · exact .extended _ _ _ _ (fun b more he => absurd he (hbyte b more)) (extended_extend ..)

/-- A tree keeps its lead if a pattern starts with it. -/
theorem lead_insert (before : List Symbol) (leaf : Leaf α) (h : tree.lead.map .byte <+: symbols) :
    (tree.insert before leaf symbols).1.lead = tree.lead := by
  have hi := inserted_insert before leaf tree symbols
  generalize tree.insert before leaf symbols = added at hi
  obtain ⟨tree', result⟩ := added
  cases hi with
  | @split shared lower _ _ _ _ b rest _ _ hb =>
    rw [RouteTree.lead, List.map_append, List.prefix_append_right_inj] at h
    obtain ⟨more, rfl⟩ := h
    exact absurd rfl (hb b _ rfl)
  | settled => rfl
  | branch => rfl
  | wild => rfl
  | extended _ _ _ _ _ h => exact h.lead_eq

/-- Where text is taken in a tree that a pattern is added to: all that adding it can do. -/
inductive Wild.Inserted (place : Place) (leaf : Leaf α) : Wild α → List Symbol → Wild α →
    Except PatternError Unit → Prop where
  | conflict (wild : Wild α) (symbols : List Symbol) (other : String) :
      Inserted place leaf wild symbols wild (.error (.conflict other))
  | several (wild : Wild α) {rest : List Symbol} (h : (segment rest).any Symbol.isWild = true) :
      Inserted place leaf wild (.param :: rest) wild (.error .severalParameters)
  | settled (own : Option (Leaf α)) (endings : Branches α) :
      Inserted place leaf (.param own endings) [.param]
        (.param (settle place.before [.param] leaf own).1 endings)
        (settle place.before [.param] leaf own).2
  | within (own : Option (Leaf α)) {endings endings' : Branches α} {rest : List Symbol}
      {result : Except PatternError Unit}
      (h : endings.insertEnding? (place.before ++ [.param]) leaf rest = some (endings', result)) :
      Inserted place leaf (.param own endings) (.param :: rest) (.param own endings') result
  | placed (own : Option (Leaf α)) {endings : Branches α} {ending : List UInt8}
      {below : List Symbol} {tree : RouteTree α} {result : Except PatternError Unit}
      (hn : endings.insertEnding? (place.before ++ [.param]) leaf
        (ending.map .byte ++ below) = none)
      (hne : ending ≠ []) (hs : segment (ending.map .byte ++ below) = ending.map .byte)
      (h : Grown leaf below tree result) :
      Inserted place leaf (.param own endings) (.param :: (ending.map .byte ++ below))
        (.param own (endings.place (ending.headD Pattern.slash) (under ending below tree))) result

/-- What follows a parameter in a pattern that is grown from it. -/
theorem Grown.of_param (h : Grown leaf (.param :: rest) tree result) (hne : rest ≠ []) :
    (result = .error .severalParameters ∧ (segment rest).any Symbol.isWild = true ∧
      tree.wild = .nothing) ∨
    ∃ ending below tree', rest = ending.map .byte ++ below ∧ ending ≠ [] ∧
      segment (ending.map .byte ++ below) = ending.map .byte ∧ Grown leaf below tree' result ∧
      tree.wild =
        .param none (.cons (ending.headD Pattern.slash) (under ending below tree') .nil) := by
  generalize hs : Symbol.param :: rest = symbols at h
  cases h with
  | bytes lead => cases lead <;> cases hs
  | catchAll lead name => cases lead <;> cases hs
  | misplaced lead name => cases lead <;> cases hs
  | several lead hw =>
    cases lead with
    | nil =>
      obtain ⟨-, rfl⟩ := List.cons.inj hs
      exact Or.inl ⟨rfl, hw, rfl⟩
    | cons b lead => cases hs
  | param lead =>
    cases lead with
    | nil => exact absurd (List.cons.inj hs).2 hne
    | cons b lead => cases hs
  | ending lead ending hne hseg h =>
    cases lead with
    | nil => exact Or.inr ⟨ending, _, _, (List.cons.inj hs).2, hne, hseg, h, rfl⟩
    | cons b lead => cases hs

theorem Wild.inserted_of_insert? (h : wild.insert? place leaf symbols = some (wild', result)) :
    wild.Inserted place leaf symbols wild' result := by
  cases wild with
  | nothing => simp [insert?] at h
  | catchAll name own =>
    obtain ⟨rfl, rfl⟩ := Prod.mk.inj (Option.some.inj h)
    exact .conflict ..
  | param own endings =>
    cases symbols with
    | nil =>
      obtain ⟨rfl, rfl⟩ := Prod.mk.inj (Option.some.inj h)
      exact .conflict ..
    | cons s rest =>
      cases s with
      | byte b =>
        obtain ⟨rfl, rfl⟩ := Prod.mk.inj (Option.some.inj h)
        exact .conflict ..
      | catchAll name =>
        obtain ⟨rfl, rfl⟩ := Prod.mk.inj (Option.some.inj h)
        exact .conflict ..
      | param =>
        rw [insert?] at h
        simp only at h
        split at h
        · obtain ⟨rfl, rfl⟩ := Prod.mk.inj (Option.some.inj h)
          exact .conflict ..
        · split at h
          · rename_i hr
            obtain ⟨rfl, rfl⟩ := Prod.mk.inj (Option.some.inj h)
            rw [List.isEmpty_iff.mp hr]
            exact .settled ..
          · rename_i hr
            have hr : rest ≠ [] := by simpa using hr
            split at h
            · rename_i hi
              obtain ⟨rfl, rfl⟩ := Prod.mk.inj (Option.some.inj h)
              exact .within _ hi
            · rename_i hn
              split at h
              · obtain ⟨rfl, rfl⟩ := Prod.mk.inj (Option.some.inj h)
                exact .conflict ..
              · have hg := grown_grow leaf (.param :: rest)
                rcases hgrow : grow leaf (.param :: rest) with ⟨⟨_, _, _, _, shoot⟩, r⟩
                rw [hgrow] at h hg
                obtain ⟨rfl, hw, rfl⟩ | ⟨ending, below, tree, rfl, hne, hs, hg, rfl⟩ :
                    (_ ∧ _ ∧ shoot = .nothing) ∨
                      ∃ ending below tree, _ ∧ _ ∧ _ ∧ _ ∧ shoot = _ := hg.of_param hr
                · obtain ⟨rfl, rfl⟩ := Prod.mk.inj (Option.some.inj h)
                  exact .several _ hw
                · obtain ⟨rfl, rfl⟩ := Prod.mk.inj (Option.some.inj h)
                  exact .placed _ hn hne hs hg

/-- A branch keeps its place, or is moved behind others. -/
theorem Branches.exists_of_insert? {branches' : Branches α}
    (h : (Branches.cons key tree others).insert? before leaf b symbols = some (branches', result)) :
    (key = b ∧ branches' = .cons key (tree.insert before leaf symbols).1 others ∧
      result = (tree.insert before leaf symbols).2) ∨
    key ≠ b ∧ ∃ others', others.insert? before leaf b symbols = some (others', result) ∧
      branches' = others'.push key tree := by
  rw [insert?] at h
  split at h
  · obtain ⟨rfl, rfl⟩ := Prod.mk.inj (Option.some.inj h)
    exact Or.inl ⟨‹_›, rfl, rfl⟩
  · obtain ⟨⟨others', r⟩, ho, he⟩ := Option.map_eq_some_iff.mp h
    obtain ⟨rfl, rfl⟩ := Prod.mk.inj he
    exact Or.inr ⟨‹_›, others', ho, rfl⟩

theorem Branches.exists_of_insertEnding? {endings' : Branches α}
    (h : (Branches.cons key tree others).insertEnding? before leaf symbols =
      some (endings', result)) :
    (tree.lead.map .byte = segment symbols ∧
      endings' = .cons key (tree.insert before leaf symbols).1 others ∧
      result = (tree.insert before leaf symbols).2) ∨
    tree.lead.map .byte ≠ segment symbols ∧ ∃ others',
      others.insertEnding? before leaf symbols = some (others', result) ∧
      endings' = .cons key tree others' := by
  rw [insertEnding?] at h
  split at h
  · obtain ⟨rfl, rfl⟩ := Prod.mk.inj (Option.some.inj h)
    exact Or.inl ⟨‹_›, rfl, rfl⟩
  · obtain ⟨⟨others', r⟩, ho, he⟩ := Option.map_eq_some_iff.mp h
    obtain ⟨rfl, rfl⟩ := Prod.mk.inj he
    exact Or.inr ⟨‹_›, others', ho, rfl⟩

theorem Branches.leads_insertEnding? :
    ∀ {endings endings' : Branches α} {result : Except PatternError Unit},
      endings.insertEnding? before leaf symbols = some (endings', result) →
        endings'.leads = endings.leads
  | .nil, _, _, h => by simp [insertEnding?] at h
  | .cons key tree others, endings', result, h => by
    obtain ⟨hl, rfl, -⟩ | ⟨-, others', ho, rfl⟩ := exists_of_insertEnding? h
    · rw [leads, leads, lead_insert _ _ (hl ▸ Pattern.prefix_segment symbols)]
    · rw [leads, leads, leads_insertEnding? ho]

mutual

/-- A tree stays well-formed whether a pattern is added to it or refused. -/
theorem isSound_insert (before : List Symbol) (leaf : Leaf α) :
    ∀ {tree : RouteTree α} {symbols : List Symbol}, tree.IsSound → .byte brace ∉ symbols →
      (tree.insert before leaf symbols).1.IsSound
  | .node lead own weight branches wild, symbols, h, hs => by
    have hi := inserted_insert before leaf (.node lead own weight branches wild) symbols
    generalize (node lead own weight branches wild).insert before leaf symbols = added at hi
    obtain ⟨tree', result⟩ := added
    have ⟨hl, hk, hn, ha, hw⟩ := h
    cases hi with
    | split _ _ _ _ hb he =>
      refine he.isSound h.split (fun hm => hs (List.mem_append_right _ hm)) ?_
      rintro c rest rfl
      simpa [keys, Branches.keys] using (hb c rest rfl).symm
    | settled => exact ⟨hl, hk, hn, ha, hw⟩
    | branch _ _ _ _ hi =>
      have hperm := Branches.keys_insert? hi
      exact ⟨hl, by rwa [hperm.mem_iff], hperm.nodup_iff.mpr hn,
        Branches.allSound_insert? ha (fun hm => hs (List.mem_append_right _ hm)) hi, hw⟩
    | wild _ _ _ _ _ hi =>
      exact ⟨hl, hk, hn, ha,
        Wild.isSound_insert? hw (fun hm => hs (List.mem_append_right _ hm)) hi⟩
    | extended _ _ _ _ hb he =>
      exact he.isSound h (fun hm => hs (List.mem_append_right _ hm)) hb

theorem Branches.allSound_insert? {before : List Symbol} {leaf : Leaf α} :
    ∀ {branches branches' : Branches α} {b : UInt8} {symbols : List Symbol}
      {result : Except PatternError Unit}, branches.AllSound → .byte brace ∉ symbols →
      branches.insert? before leaf b symbols = some (branches', result) → branches'.AllSound
  | .nil, _, _, _, _, _, _, h => by simp [Branches.insert?] at h
  | .cons key tree others, branches', b, symbols, result, ⟨ht, ho⟩, hs, h => by
    obtain ⟨-, rfl, -⟩ | ⟨-, others', hi, rfl⟩ := Branches.exists_of_insert? h
    · exact ⟨isSound_insert before leaf ht hs, ho⟩
    · exact Branches.allSound_push ht (Branches.allSound_insert? ho hs hi)

theorem Wild.isSound_insert? {place : Place} {leaf : Leaf α} :
    ∀ {wild wild' : Wild α} {symbols : List Symbol} {result : Except PatternError Unit},
      wild.IsSound → .byte brace ∉ symbols →
      wild.insert? place leaf symbols = some (wild', result) → wild'.IsSound
  | .nothing, _, _, _, _, _, h => by simp [Wild.insert?] at h
  | .param own endings, wild', symbols, result, ⟨he, ha⟩, hs, h => by
    cases Wild.inserted_of_insert? h with
    | conflict => exact ⟨he, ha⟩
    | several => exact ⟨he, ha⟩
    | settled => exact ⟨he, ha⟩
    | within _ hi =>
      refine ⟨by rwa [Branches.leads_insertEnding? hi], ?_⟩
      exact Branches.allSound_insertEnding? ha (fun hm => hs (List.mem_cons_of_mem _ hm)) hi
    | @placed _ _ ending below tree _ _ hne _ hg =>
      obtain ⟨hending, hbelow⟩ : brace ∉ ending ∧ .byte brace ∉ below := by
        simpa [not_or] using hs
      refine ⟨Branches.areEndings_place _ (by rwa [lead_under]) he, ?_⟩
      exact Branches.allSound_place ((hg.isSound hbelow).under hending hbelow) ha
  | .catchAll name own, wild', symbols, result, _, _, h => by
    obtain ⟨rfl, -⟩ := Prod.mk.inj (Option.some.inj h)
    trivial

theorem Branches.allSound_insertEnding? {before : List Symbol} {leaf : Leaf α} :
    ∀ {endings endings' : Branches α} {symbols : List Symbol}
      {result : Except PatternError Unit}, endings.AllSound → .byte brace ∉ symbols →
      endings.insertEnding? before leaf symbols = some (endings', result) → endings'.AllSound
  | .nil, _, _, _, _, _, h => by simp [Branches.insertEnding?] at h
  | .cons key tree others, endings', symbols, result, ⟨ht, ho⟩, hs, h => by
    obtain ⟨-, rfl, -⟩ | ⟨-, others', hi, rfl⟩ := Branches.exists_of_insertEnding? h
    · exact ⟨isSound_insert before leaf ht hs, ho⟩
    · exact ⟨ht, Branches.allSound_insertEnding? ho hs hi⟩

end

end RouteTree

end RequestRouting
