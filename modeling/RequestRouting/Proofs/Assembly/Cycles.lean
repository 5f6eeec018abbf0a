import Mathlib.Logic.Relation
import RequestRouting.Proofs.Assembly.Steps

/-!
# Cycles of prebuilt nodes

Prebuilt nodes resolve one another by name, each one at a URI, and are searched depth first. Only
the way from the first one down to the one at hand is remembered, so a node that's come to in two
ways is resolved twice, while one that's come to on the way from itself is refused. The search is put
down here as a relation, without any bound on how deep it goes. It always comes to an end, since
there are finitely many nodes and URIs, of which none is twice on one way, and it fails exactly if
there is a cycle among the nodes that can be reached.
-/

namespace RequestRouting

namespace Assembly

open Relation (ReflTransGen TransGen)

/-- A prebuilt node that is resolved at a URI: the URI, and the name of the node. -/
abbrev Occurrence := String × String

/-- The prebuilt node with the given name. -/
def prebuilt? (nodes : List (String × Prebuilt)) (name : String) : Option Prebuilt :=
  (nodes.find? (·.1 = name)).map (·.2)

/-- Whether resolving one prebuilt node at a URI resolves another one, both being there. That's done
at the same URI unless the step has one of its own. -/
def Calls (nodes : List (String × Prebuilt)) (o o' : Occurrence) : Prop :=
  (prebuilt? nodes o'.2).isSome = true ∧ ∃ node, prebuilt? nodes o.2 = some node ∧
    ∃ step ∈ steps node, o' = (step.2.getD o.1, step.1)

/-- What there is to do when prebuilt nodes are resolved: a node at a URI, or the steps that are left
of a node, after one that yielded something. -/
inductive Task where
  | node (name uri : String)
  | steps (uri : String) (rest : List (String × Option String)) (last : Resolved)

/-- How tasks are done, as deep as it takes. -/
inductive Runs : Task → State → Except Error Resolved × State → Prop where
  | unknown {name uri : String} {s : State} (h : prebuilt? s.context.prebuilt name = none) :
      Runs (.node name uri) s (.ok .hidden, s)
  /-- The node is being resolved at that URI already. -/
  | cycle {name uri : String} {s : State} {node : Prebuilt}
      (h : prebuilt? s.context.prebuilt name = some node)
      (hc : (uri, name) ∈ s.context.resolving) :
      Runs (.node name uri) s (.error (.cycle uri), s)
  | closure {name uri : String} {s : State} {response : String → String → Response}
      (h : prebuilt? s.context.prebuilt name = some (.closure response))
      (hc : (uri, name) ∉ s.context.resolving) :
      Runs (.node name uri) s
        (.ok (.handler (.resource
          { place := s.world.addCalls.1, answer := fun _ _ => response s.context.name uri })),
        { s with world := s.world.addCalls.2 })
  | family {name uri : String} {s t : State} {handler : Option Handler}
      {steps : List (String × Option String)} {result : Except Error Resolved}
      (h : prebuilt? s.context.prebuilt name = some (.family handler steps))
      (hc : (uri, name) ∉ s.context.resolving)
      (hr : Runs (.steps uri steps ((handler.map Resolved.handler).getD .hidden))
        { s with context.resolving := s.context.resolving ++ [(uri, name)] } (result, t)) :
      Runs (.node name uri) s (result, { t with context.resolving := s.context.resolving })
  | done {uri : String} {last : Resolved} {s : State} : Runs (.steps uri [] last) s (.ok last, s)
  | fail {uri : String} {step : String × Option String} {rest : List (String × Option String)}
      {last : Resolved} {s t : State} {e : Error}
      (h : Runs (.node step.1 (step.2.getD uri)) s (.error e, t)) :
      Runs (.steps uri (step :: rest) last) s (.error e, t)
  | next {uri : String} {step : String × Option String} {rest : List (String × Option String)}
      {last r : Resolved} {s t : State} {out : Except Error Resolved × State}
      (h : Runs (.node step.1 (step.2.getD uri)) s (.ok r, t))
      (hr : Runs (.steps uri rest r) t out) :
      Runs (.steps uri (step :: rest) last) s out

/-- Resolving prebuilt nodes leaves the context as it is, those that are being resolved among it. -/
theorem Runs.context_eq {task : Task} {s : State} {out : Except Error Resolved × State}
    (h : Runs task s out) : out.2.context = s.context := by
  induction h with
  | unknown | cycle | closure | done => rfl
  | @family _ _ s _ _ _ _ _ _ _ ih =>
    exact congrArg (fun c : Context => { c with resolving := s.context.resolving }) ih
  | fail _ ih => exact ih
  | next _ _ ih ih' => exact ih'.trans ih

/-! The search comes to an end. -/

section Termination

variable {nodes : List (String × Prebuilt)} {all : List Occurrence}

/-- The number of occurrences that aren't on a way. -/
def left (all stack : List Occurrence) : Nat := (all.filter fun o => !stack.contains o).length

/-- A way that goes on takes up one more occurrence. -/
theorem left_concat_lt {stack : List Occurrence} {o : Occurrence} (ho : o ∈ all) (hs : o ∉ stack) :
    left all (stack ++ [o]) < left all stack := by
  have hsub (x : Occurrence) (hx : (!(stack ++ [o]).contains x) = true) :
      (!stack.contains x) = true := by
    simp_all
  have heq : all.filter (fun x => !(stack ++ [o]).contains x) =
      (all.filter fun x => !stack.contains x).filter fun x => !(stack ++ [o]).contains x := by
    rw [List.filter_filter]
    refine List.filter_congr fun x _ => ?_
    cases hx : !(stack ++ [o]).contains x with
    | true => rw [hsub x hx]; rfl
    | false => rfl
  rw [left, left, heq]
  refine List.length_filter_lt_length_iff_exists.mpr ⟨o, ?_, by simp⟩
  exact List.mem_filter.mpr ⟨ho, by simpa using hs⟩

/-- Whether occurrences contain whatever they call. -/
def IsComplete (nodes : List (String × Prebuilt)) (all : List Occurrence) : Prop :=
  ∀ o ∈ all, ∀ o', Calls nodes o o' → o' ∈ all

/-- With a bound on the depth that no way reaches, steps are done as they're without one, if nodes
are. -/
theorem runs_foldlM {resolve : ResolvePrebuilt} {uri : String}
    {steps : List (String × Option String)} {last : Resolved} {s : State}
    (h : ∀ step ∈ steps, ∀ t : State, t.context = s.context →
      Runs (.node step.1 (step.2.getD uri)) t (resolve step.1 (step.2.getD uri) t)) :
    Runs (.steps uri steps last) s
      (steps.foldlM (fun _ (step : String × Option String) => resolve step.1 (step.2.getD uri))
        last s) := by
  induction steps generalizing last s with
  | nil => exact .done
  | cons step rest ih =>
    obtain ⟨hstep, hrest⟩ := List.forall_mem_cons.mp h
    have hfirst := hstep s rfl
    rw [List.foldlM_cons, bind_apply]
    generalize resolve step.1 (step.2.getD uri) s = p at hfirst
    obtain ⟨r, t⟩ := p
    cases r with
    | error e => exact .fail hfirst
    | ok r =>
      have ht : t.context = s.context := hfirst.context_eq
      exact .next hfirst (ih fun step hm u hu => hrest step hm u (hu.trans ht))

theorem resolvePrebuilt_of_none {fuel : Nat} {name uri : String} {s : State}
    (h : prebuilt? s.context.prebuilt name = none) :
    resolvePrebuilt (fuel + 1) name uri s = (.ok .hidden, s) := by
  rw [resolvePrebuilt, context_bind_apply, Option.map_eq_none_iff.mp h]
  rfl

theorem resolvePrebuilt_of_some {fuel : Nat} {name uri : String} {s : State} {node : Prebuilt}
    (h : prebuilt? s.context.prebuilt name = some node) :
    resolvePrebuilt (fuel + 1) name uri s =
      guarded name uri (createPrebuilt (resolvePrebuilt fuel) uri node) s := by
  obtain ⟨_, hfind, rfl⟩ := Option.map_eq_some_iff.mp h
  rw [resolvePrebuilt, context_bind_apply, hfind]

/-- Nodes are resolved as they're without a bound on the depth, if it's larger than the number of
occurrences that aren't on the way yet. -/
theorem runs_resolvePrebuilt (hall : IsComplete nodes all) {fuel : Nat} {name uri : String}
    {s : State} (hn : s.context.prebuilt = nodes)
    (ho : (prebuilt? nodes name).isSome = true → (uri, name) ∈ all)
    (hf : left all s.context.resolving < fuel) :
    Runs (.node name uri) s (resolvePrebuilt fuel name uri s) := by
  induction fuel generalizing name uri s with
  | zero => exact absurd hf (Nat.not_lt_zero _)
  | succ fuel ih =>
    cases hnode : prebuilt? s.context.prebuilt name with
    | none =>
      rw [resolvePrebuilt_of_none hnode]
      exact .unknown hnode
    | some node =>
      rw [resolvePrebuilt_of_some hnode]
      rw [hn] at hnode
      have hmem : (uri, name) ∈ all := ho (by rw [hnode]; rfl)
      unfold guarded
      split
      · rename_i hc
        exact .cycle (hn ▸ hnode) (List.contains_iff_mem.mp hc)
      · rename_i hc
        have hfresh : (uri, name) ∉ s.context.resolving := mt List.contains_iff_mem.mpr hc
        cases node with
        | closure response => exact .closure (hn ▸ hnode) hfresh
        | family handler steps =>
          refine .family (hn ▸ hnode) hfresh (runs_foldlM fun step hstep t ht => ?_)
          -- the steps are resolved one level deeper, with the node itself on the way
          refine ih (by rw [ht]; exact hn) (fun hsome => ?_) ?_
          · exact hall _ hmem _ ⟨hsome, _, hnode, step, hstep, rfl⟩
          · rw [ht]
            exact Nat.lt_of_lt_of_le (left_concat_lt hmem hfresh) (Nat.le_of_lt_succ hf)

/-- All occurrences there may be of prebuilt nodes: each of them at the URI that was started with,
and at those of all steps. -/
def occurrences (nodes : List (String × Prebuilt)) (uri : String) : List Occurrence :=
  nodes.flatMap fun node =>
    (uri :: (nodes.flatMap fun (_, node) => steps node).filterMap (·.2)).map (·, node.1)

theorem length_occurrences_lt (nodes : List (String × Prebuilt)) (uri : String) :
    (occurrences nodes uri).length < nestingBound nodes := by
  have hle := List.length_filterMap_le (·.2) (nodes.flatMap fun (_, node) => steps node)
  have heq : (occurrences nodes uri).length =
      nodes.length * (((nodes.flatMap fun (_, node) => steps node).filterMap (·.2)).length + 1) := by
    simp only [occurrences, List.length_flatMap, List.length_map, List.length_cons, List.map_const',
      List.sum_replicate_nat]
  rw [heq]
  exact Nat.lt_succ_of_le (Nat.mul_le_mul_left _ (Nat.succ_le_succ hle))

theorem mem_of_prebuilt? {name : String} {node : Prebuilt} (h : prebuilt? nodes name = some node) :
    (name, node) ∈ nodes := by
  obtain ⟨⟨name', node'⟩, hfind, rfl⟩ := Option.map_eq_some_iff.mp h
  obtain rfl : name' = name := by simpa using List.find?_some hfind
  exact List.mem_of_find?_eq_some hfind

theorem mem_occurrences {uri name : String} (h : (prebuilt? nodes name).isSome = true) :
    (uri, name) ∈ occurrences nodes uri := by
  obtain ⟨node, hnode⟩ := Option.isSome_iff_exists.mp h
  exact List.mem_flatMap.mpr ⟨_, mem_of_prebuilt? hnode, List.mem_map.mpr ⟨uri, by simp, rfl⟩⟩

theorem isComplete_occurrences (nodes : List (String × Prebuilt)) (uri : String) :
    IsComplete nodes (occurrences nodes uri) := by
  rintro o ho _ ⟨hsome, node, hnode, step, hstep, rfl⟩
  obtain ⟨node', hnode'⟩ := Option.isSome_iff_exists.mp hsome
  obtain ⟨_, -, hmem⟩ := List.mem_flatMap.mp ho
  obtain ⟨uri', huri, rfl⟩ := List.mem_map.mp hmem
  refine List.mem_flatMap.mpr ⟨_, mem_of_prebuilt? hnode', List.mem_map.mpr ⟨_, ?_, rfl⟩⟩
  cases hu : step.2 with
  | none => exact huri
  | some own =>
    refine List.mem_cons_of_mem _ (List.mem_filterMap.mpr ⟨step, ?_, hu⟩)
    exact List.mem_flatMap.mpr ⟨_, mem_of_prebuilt? hnode, hstep⟩

/-- Prebuilt nodes are resolved as they're without a bound on the depth. -/
theorem runs_resolve (s : State) (name uri : String) :
    Runs (.node name uri) s (resolve (.prebuilt name) uri s) := by
  have he : resolve (.prebuilt name) uri s =
      resolvePrebuilt (nestingBound s.context.prebuilt) name uri s := by
    change Descriptor.resolve (resolvePrebuilt _) (.prebuilt name) uri s = _
    rw [Descriptor.resolve]
  rw [he]
  refine runs_resolvePrebuilt (isComplete_occurrences s.context.prebuilt uri) rfl mem_occurrences ?_
  exact Nat.lt_of_le_of_lt (List.length_filter_le _ _) (length_occurrences_lt _ uri)

end Termination

/-! The search fails exactly if there is a cycle. -/

section Exactness

variable {nodes : List (String × Prebuilt)} {stack : List Occurrence} {o : Occurrence}

/-- Whether a way on from a node comes to one that's on the way already, or to one that can reach
itself. -/
def Closes (nodes : List (String × Prebuilt)) (stack : List Occurrence) (o : Occurrence) : Prop :=
  (prebuilt? nodes o.2).isSome = true ∧
    ∃ o', ReflTransGen (Calls nodes) o o' ∧ (o' ∈ stack ∨ TransGen (Calls nodes) o' o')

/-- Whether a task comes upon a node that's on the way already, or that can reach itself. -/
def Doomed (nodes : List (String × Prebuilt)) (stack : List Occurrence) : Task → Prop
  | .node name uri => Closes nodes stack (uri, name)
  | .steps uri rest _ => ∃ step ∈ rest, Closes nodes stack (step.2.getD uri, step.1)

/-- A node that isn't on the way closes a cycle exactly if one does that it calls, with the node
itself on the way then. -/
theorem closes_iff (ho : o ∉ stack) :
    Closes nodes stack o ↔ ∃ o', Calls nodes o o' ∧ Closes nodes (stack ++ [o]) o' := by
  constructor
  · rintro ⟨hsome, x, hox, hx⟩
    have hfirst {y : Occurrence} (hoy : TransGen (Calls nodes) o y)
        (hy : y ∈ stack ++ [o] ∨ TransGen (Calls nodes) y y) :
        ∃ o', Calls nodes o o' ∧ Closes nodes (stack ++ [o]) o' := by
      obtain ⟨o', hcall, hreach⟩ := TransGen.head'_iff.mp hoy
      exact ⟨o', hcall, hcall.1, y, hreach, hy⟩
    obtain rfl | hox := Relation.reflTransGen_iff_eq_or_transGen.mp hox
    · obtain hx | hx := hx
      · exact absurd hx ho
      · exact hfirst hx (.inl (by simp))
    · exact hfirst hox (hx.imp_left (List.mem_append_left _))
  · rintro ⟨o', hcall, -, x, hreach, hx⟩
    have hox : ReflTransGen (Calls nodes) o x := .head hcall hreach
    refine ⟨?_, ?_⟩
    · obtain ⟨-, node, hnode, -⟩ := hcall
      rw [hnode]
      rfl
    · obtain hx | hx := hx
      · obtain hx | rfl := List.mem_append.mp hx |>.imp_right List.mem_singleton.mp
        · exact ⟨x, hox, .inl hx⟩
        -- the way back to the node itself makes it one that can reach itself
        · exact ⟨x, .refl, .inr (.head' hcall hreach)⟩
      · exact ⟨x, hox, .inr hx⟩

/-- A node that isn't on the way is doomed exactly if its steps are, with the node on the way. -/
theorem doomed_node_iff {name uri : String} {node : Prebuilt}
    (h : prebuilt? nodes name = some node) (ho : (uri, name) ∉ stack) (last : Resolved) :
    Doomed nodes stack (.node name uri) ↔
      Doomed nodes (stack ++ [(uri, name)]) (.steps uri (steps node) last) := by
  refine (closes_iff ho).trans ⟨?_, ?_⟩
  · rintro ⟨_, ⟨-, node', hnode', step, hstep, rfl⟩, hcloses⟩
    obtain rfl : node = node' := Option.some.inj (h.symm.trans hnode')
    exact ⟨step, hstep, hcloses⟩
  · rintro ⟨step, hstep, hcloses⟩
    exact ⟨_, ⟨hcloses.1, node, h, step, hstep, rfl⟩, hcloses⟩

/-- Steps are doomed if the first one is, or those that are left. -/
theorem doomed_cons_iff {uri : String} {step : String × Option String}
    {rest : List (String × Option String)} (last last' : Resolved) :
    Doomed nodes stack (.steps uri (step :: rest) last) ↔
      Doomed nodes stack (.node step.1 (step.2.getD uri)) ∨
        Doomed nodes stack (.steps uri rest last') := by
  simp only [Doomed, List.mem_cons, exists_eq_or_imp]

/-- What a task comes to: a cycle is reported if it's doomed, and otherwise it succeeds. -/
theorem Runs.result_eq {task : Task} {s : State} {out : Except Error Resolved × State}
    (h : Runs task s out) :
    (Doomed s.context.prebuilt s.context.resolving task ∧ ∃ uri, out.1 = .error (.cycle uri)) ∨
      (¬ Doomed s.context.prebuilt s.context.resolving task ∧ ∃ r, out.1 = .ok r) := by
  induction h with
  | unknown h => exact .inr ⟨fun hd => by simp [Doomed, Closes, h] at hd, _, rfl⟩
  | cycle h hc => exact .inl ⟨⟨by rw [h]; rfl, _, .refl, .inl hc⟩, _, rfl⟩
  | @closure _ _ s _ h hc =>
    refine .inr ⟨fun hd => ?_, _, rfl⟩
    obtain ⟨_, hstep, -⟩ := (doomed_node_iff h hc .hidden).mp hd
    exact absurd hstep List.not_mem_nil
  | family h hc _ ih =>
    rw [doomed_node_iff h hc _]
    exact ih
  | done => exact .inr ⟨fun ⟨_, hstep, _⟩ => absurd hstep List.not_mem_nil, _, rfl⟩
  | @fail _ _ _ last _ _ _ _ ih =>
    obtain ⟨hd, he⟩ | ⟨-, r, hr⟩ := ih
    · exact .inl ⟨(doomed_cons_iff last last).mpr (.inl hd), he⟩
    · nomatch hr
  | @next _ _ _ last r _ _ _ h _ ih ih' =>
    have ht := h.context_eq
    dsimp only at ht
    rw [ht] at ih'
    rw [doomed_cons_iff last r]
    obtain ⟨-, _, he⟩ | ⟨hd, -⟩ := ih
    · nomatch he
    · exact ih'.imp (And.imp_left .inr) (And.imp_left fun hrest => not_or.mpr ⟨hd, hrest⟩)

/-- Only nodes that are there lead anywhere. -/
theorem isSome_of_transGen {o' : Occurrence} (h : TransGen (Calls nodes) o o') :
    (prebuilt? nodes o.2).isSome = true := by
  obtain ⟨_, ⟨-, node, hnode, -⟩, -⟩ := TransGen.head'_iff.mp h
  rw [hnode]
  rfl

/-- Resolving a prebuilt node comes to an end, however deep it goes, and leaves those that are being
resolved as they were. A cycle is reported exactly if some node that can be reached can reach itself,
and otherwise the node is resolved, no matter how many ways lead to one. All that are being resolved
already have to lead to the node, as they do if it's resolved on their behalf. -/
theorem resolve_prebuilt_cycle_iff (s : State) (name uri : String)
    (hs : ∀ o ∈ s.context.resolving, ReflTransGen (Calls s.context.prebuilt) (uri, name) o →
      TransGen (Calls s.context.prebuilt) o (uri, name)) :
    Runs (.node name uri) s (resolve (.prebuilt name) uri s) ∧
      (resolve (.prebuilt name) uri s).2.context.resolving = s.context.resolving ∧
      ((∃ at', (resolve (.prebuilt name) uri s).1 = .error (.cycle at')) ↔
        ∃ o, ReflTransGen (Calls s.context.prebuilt) (uri, name) o ∧
          TransGen (Calls s.context.prebuilt) o o) ∧
      ((∃ r, (resolve (.prebuilt name) uri s).1 = .ok r) ↔
        ¬ ∃ o, ReflTransGen (Calls s.context.prebuilt) (uri, name) o ∧
          TransGen (Calls s.context.prebuilt) o o) := by
  have hr := runs_resolve s name uri
  have hd : Doomed s.context.prebuilt s.context.resolving (.node name uri) ↔
      ∃ o, ReflTransGen (Calls s.context.prebuilt) (uri, name) o ∧
        TransGen (Calls s.context.prebuilt) o o := by
    constructor
    · rintro ⟨-, o, ho, hstack | hself⟩
      · exact ⟨o, ho, (hs o hstack ho).trans_left ho⟩
      · exact ⟨o, ho, hself⟩
    · rintro ⟨o, ho, hself⟩
      exact ⟨isSome_of_transGen (.trans_right ho hself), o, ho, .inr hself⟩
  refine ⟨hr, congrArg Context.resolving hr.context_eq, ?_⟩
  rw [← hd]
  obtain ⟨hdoomed, uri', he⟩ | ⟨hdoomed, r, hok⟩ := hr.result_eq
  · refine ⟨iff_of_true ⟨uri', he⟩ hdoomed, iff_of_false ?_ (not_not_intro hdoomed)⟩
    rintro ⟨r, hr⟩
    nomatch he.symm.trans hr
  · refine ⟨iff_of_false ?_ hdoomed, iff_of_true ⟨r, hok⟩ hdoomed⟩
    rintro ⟨uri', he⟩
    nomatch hok.symm.trans he

/-- A state with a node that comes to another one in two ways, and two nodes in a ring that a third
one leads into. -/
def nodeState (resolving : List Occurrence) : State where
  context := {
    name := "shop"
    root := "."
    prebuilt := [
      ("top", .family none [("left", none), ("right", none)]),
      ("left", .family none [("leaf", none)]),
      ("right", .family none [("leaf", none)]),
      ("leaf", .family none []),
      ("entry", .family none [("leaf", none), ("tick", none)]),
      ("tick", .family none [("tock", none)]),
      ("tock", .family none [("tick", none)])]
    resolving }
  world := {}

theorem calls_nodeState :
    Calls (nodeState []).context.prebuilt ("/", "entry") ("/", "tick") ∧
      Calls (nodeState []).context.prebuilt ("/", "tick") ("/", "tock") :=
  ⟨⟨rfl, _, rfl, ("tick", none), by simp [steps], rfl⟩,
    ⟨rfl, _, rfl, ("tock", none), by simp [steps], rfl⟩⟩

theorem resolve_prebuilt_cycle_iff_nodeState :
    (¬ ∃ o, ReflTransGen (Calls (nodeState []).context.prebuilt) ("/", "top") o ∧
        TransGen (Calls (nodeState []).context.prebuilt) o o) ∧
      (∀ o ∈ (nodeState [("/", "entry"), ("/", "tick")]).context.resolving,
        TransGen (Calls (nodeState []).context.prebuilt) o ("/", "tock")) ∧
      (resolve (.prebuilt "tock") "/" (nodeState [("/", "entry"), ("/", "tick")])).1 =
        .error (.cycle "/") ∧
      ∃ o, ReflTransGen (Calls (nodeState []).context.prebuilt) ("/", "tock") o ∧
        TransGen (Calls (nodeState []).context.prebuilt) o o := by
  have hstack : ∀ o ∈ (nodeState [("/", "entry"), ("/", "tick")]).context.resolving,
      TransGen (Calls (nodeState []).context.prebuilt) o ("/", "tock") := by
    obtain ⟨hentry, htick⟩ := calls_nodeState
    intro o ho
    obtain rfl | ho := List.mem_cons.mp ho
    · exact .head hentry (.single htick)
    · obtain rfl := List.mem_singleton.mp ho
      exact .single htick
  obtain ⟨-, -, -, hok⟩ := resolve_prebuilt_cycle_iff (nodeState []) "top" "/" nofun
  obtain ⟨-, -, hcycle, -⟩ := resolve_prebuilt_cycle_iff
    (nodeState [("/", "entry"), ("/", "tick")]) "tock" "/" fun o ho _ => hstack o ho
  have htop : (resolve (.prebuilt "top") "/" (nodeState [])).1.toOption.isSome = true := by
    decide +kernel
  obtain ⟨r, hr⟩ := Option.isSome_iff_exists.mp htop
  exact ⟨hok.mp ⟨r, eq_ok_of_toOption hr⟩, hstack, rfl, hcycle.mp ⟨"/", rfl⟩⟩

end Exactness

end Assembly

end RequestRouting
