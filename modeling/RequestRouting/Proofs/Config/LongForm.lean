import Mathlib.Data.List.Permutation
import RequestRouting.Proofs.Config.Grammar

/-!
# Shorthands and their long form

A shorthand is short for an object that names the type of a node and gives its fields. Both of them
are read into the same node, or fail alike: a shorthand is lowered by hand, while the fields of an
object are read one by one, with the defaults of those that are left out. An object has its members
in any order, and its type is taken out of it before the others are read.
-/

namespace RequestRouting

namespace Shorthand

/-- The type of the node that a shorthand stands for. A hidden route is no node. -/
def nodeType : Shorthand → Option String
  | hidden => none
  | status _ => some "status"
  | capture _ _ => some "capture"
  | redirect _ => some "redirect"
  | dispatch _ _ => some "dispatch"
  | resource _ => some "resource"
  | type name => some name

/-- The fields of that node which a shorthand gives. -/
def fields : Shorthand → List (String × Json)
  | hidden => []
  | status code => [("code", .int code)]
  | capture uri hide => [("uri", .str uri), ("hidden", .bool hide)]
  | redirect uri => [("uri", .str uri)]
  | dispatch none id => [("id", .str id)]
  | dispatch (some dispatcher) id => [("id", .str id), ("dispatcher", .str dispatcher)]
  | resource name => [("class", .str name)]
  | type _ => []

/-- Whether an object is the long form of a shorthand: its members are the type of the node and its
fields, in any order. -/
def IsLongForm (s : Shorthand) (members : List (String × Json)) : Prop :=
  ∃ name, s.nodeType = some name ∧ members.Perm (("type", .str name) :: s.fields)

/-- A status is a number of 16 bits. -/
theorem lt_of_parse? {text : String} {code : Nat} (h : parse? text = some (.status code)) :
    code < 65536 := by
  rcases written_or_signed_of_parse? h with hw | ⟨n, digits, hn, he, -⟩
  · cases hw with
    | status hn => exact Nat.lt_succ_of_le hn.le
  · obtain rfl := Shorthand.status.inj he
    exact Nat.lt_succ_of_le hn.le

/-- No field is called like the member that names the type. -/
theorem ne_type_of_mem_fields (s : Shorthand) : ∀ field ∈ s.fields, field.1 ≠ "type" := by
  cases s with
  | hidden | type _ => exact nofun
  | dispatch dispatcher id => cases dispatcher <;> simp [fields]
  | _ => simp [fields]

end Shorthand

namespace Descriptor

/-- Wherever a member stands that occurs once, it's taken out, and the others are left, be it in a
different order. -/
theorem takeMember_of_perm {key : String} {v : Json} {members fields : List (String × Json)}
    (hm : members.Perm ((key, v) :: fields)) (hf : ∀ field ∈ fields, field.1 ≠ key) :
    ∃ rest, takeMember key members = (some v, rest) ∧ rest.Perm fields := by
  obtain ⟨before, after, rfl⟩ := List.append_of_mem (hm.mem_iff.mpr List.mem_cons_self)
  have hrest : (before ++ after).Perm fields := (List.perm_middle.symm.trans hm).cons_inv
  have hbefore : before.findIdx? (·.1 = key) = none := by
    refine List.findIdx?_eq_none_iff.mpr fun member hmem => decide_eq_false ?_
    exact hf member (hrest.mem_iff.mp (List.mem_append_left _ hmem))
  have hidx : (before ++ (key, v) :: after).findIdx? (·.1 = key) = some before.length := by
    rw [List.findIdx?_append, hbefore, List.findIdx?_cons]
    simp
  have hvalue : (before ++ (key, v) :: after)[before.length]? = some (key, v) := by simp
  unfold takeMember
  rw [hidx]
  dsimp only
  rw [hvalue]
  rcases List.eq_nil_or_concat after with rfl | ⟨middle, last, rfl⟩
  · -- the member is the last one, so none takes its place
    exact ⟨before, by simp, by simpa using hrest⟩
  · rw [List.concat_eq_append] at hrest ⊢
    have hlast : (before ++ (key, v) :: (middle ++ [last])).getLast? = some last := by
      rw [← List.cons_append, ← List.append_assoc, List.getLast?_concat]
    have hset : ((before ++ (key, v) :: (middle ++ [last])).set before.length last).dropLast =
        before ++ last :: middle := by
      rw [List.set_append_right _ _ (Nat.le_refl _), Nat.sub_self, List.set_cons_zero,
        ← List.cons_append, ← List.append_assoc, List.dropLast_concat]
    refine ⟨before ++ last :: middle, ?_, ?_⟩
    · rw [hlast]
      dsimp only
      rw [hset, if_neg (by simp)]
      rfl
    · exact ((List.perm_append_singleton last middle).symm.append_left before).trans hrest

end Descriptor

namespace Node

variable {descriptor : Json → Except Error Descriptor}

/-- A node without fields wraps nothing, so it doesn't matter how wrapped descriptors are read. -/
theorem ofParts_nil (other : Json → Except Error Descriptor) (name : String) :
    ofParts descriptor name [] = ofParts other name [] := by
  unfold ofParts
  split <;> rfl

/-- Reading the fields of a shorthand comes down to lowering it. -/
theorem ofParts_fields {s : Shorthand} {name : String} (hname : s.nodeType = some name)
    (hs : ∀ code, s = .status code → code < 65536) {fields : List (String × Json)}
    (hf : fields.Perm s.fields) : ofParts descriptor name fields = ofShorthand s := by
  cases s with
  | hidden => cases hname
  | status code =>
    obtain rfl := Option.some.inj hname
    obtain rfl := List.perm_singleton.mp hf
    have hcode : (code : Int) < 65536 := Int.ofNat_lt.mpr (hs code rfl)
    have hword : (Json.Decoder.word (.int code) : Except (Json.Problem Error) Nat) = .ok code := by
      simp [Json.Decoder.word, hcode]
    have hread : readStatus [("code", .int code)] = .ok { code } := by
      simp only [readStatus, read, Json.Decoder.members, Json.Decoder.field, List.find?_cons,
        decide_true, Bool.true_or, List.contains_nil, Bool.false_eq_true, if_false, hword]
      rfl
    change (readStatus [("code", .int code)]).map Node.status = _
    rw [hread]
    rfl
  | capture uri hide =>
    obtain rfl := Option.some.inj hname
    rcases List.perm_pair.mp hf with rfl | rfl <;> rfl
  | redirect uri =>
    obtain rfl := Option.some.inj hname
    obtain rfl := List.perm_singleton.mp hf
    rfl
  | dispatch dispatcher id =>
    obtain rfl := Option.some.inj hname
    cases dispatcher with
    | none =>
      obtain rfl := List.perm_singleton.mp hf
      rfl
    | some dispatcher => rcases List.perm_pair.mp hf with rfl | rfl <;> rfl
  | resource id =>
    obtain rfl := Option.some.inj hname
    obtain rfl := List.perm_singleton.mp hf
    rfl
  | type name =>
    obtain rfl := Option.some.inj hname
    obtain rfl := List.perm_nil.mp hf
    exact ofParts_nil _ _

end Node

/-- A shorthand and its long form are read alike: they fail with the same error, which only a bare
name of a node type does, or yield the same node. -/
theorem Descriptor.ofText_longForm {text : String} {s : Shorthand}
    (hs : Shorthand.parse? text = some s) (hn : s ≠ .hidden) {members : List (String × Json)}
    (hm : s.IsLongForm members) :
    (∃ name e, s = .type name ∧ ofText text = .error e ∧ ofJson (.obj members) = .error e) ∨
      ∃ node, ofText text = .ok (.node node) ∧ ofJson (.obj members) = .ok (.node node) := by
  obtain ⟨name, hname, hperm⟩ := hm
  have htext : ofText text = (Node.ofShorthand s).map .node := by
    unfold ofText
    rw [hs]
    cases s with
    | hidden => exact absurd rfl hn
    | _ => rfl
  have hjson : ofJson (.obj members) = (Node.ofShorthand s).map .node := by
    obtain ⟨rest, htake, hrest⟩ := takeMember_of_perm hperm s.ne_type_of_mem_fields
    have hcode : ∀ code, s = .status code → code < 65536 := by
      rintro code rfl
      exact Shorthand.lt_of_parse? hs
    unfold ofJson decode
    dsimp only
    rw [htake]
    dsimp only
    rw [Node.ofParts_fields hname hcode hrest]
  rw [htext, hjson]
  cases hnode : Node.ofShorthand s with
  | ok node => exact .inr ⟨node, rfl, rfl⟩
  | error e =>
    cases s with
    | hidden => exact absurd rfl hn
    | type name => exact .inl ⟨name, e, rfl, rfl, rfl⟩
    | _ => cases hnode

/-- A dispatch whose long form has its type in between, and the name of a node that can't do without
its fields. -/
theorem Descriptor.ofText_longForm_dispatch :
    (∃ node, ofText "@lang:item" = .ok (.node node) ∧ ofJson (.obj
      [("dispatcher", .str "lang"), ("type", .str "dispatch"), ("id", .str "item")]) =
        .ok (.node node)) ∧
    ∃ e, ofText "filter" = .error e ∧ ofJson (.obj [("type", .str "filter")]) = .error e := by
  have hlang : Shorthand.parse? "@lang:item" = some (.dispatch (some "lang") "item") := by decide
  have hfilter : Shorthand.parse? "filter" = some (.type "filter") := by decide
  have hmembers : (Shorthand.dispatch (some "lang") "item").IsLongForm
      [("dispatcher", .str "lang"), ("type", .str "dispatch"), ("id", .str "item")] :=
    ⟨"dispatch", rfl, (List.perm_append_singleton _ [_, _]).symm⟩
  have hfails : (ofText "filter").isOk = false := by decide
  constructor
  · rcases ofText_longForm hlang nofun hmembers with ⟨name, e, hs, -⟩ | hnode
    · cases hs
    · exact hnode
  · have hlong : (Shorthand.type "filter").IsLongForm [("type", .str "filter")] :=
      ⟨"filter", rfl, .refl _⟩
    rcases ofText_longForm hfilter nofun hlong with ⟨_, e, -, he⟩ | ⟨node, hnode, -⟩
    · exact ⟨e, he⟩
    · rw [hnode] at hfails
      cases hfails

end RequestRouting
