import RequestRouting.Proofs.Assembly.Mirroring
import RequestRouting.Proofs.Assembly.Root
import RequestRouting.Proofs.Chain.Arrangement

/-!
# Arrays of descriptors

An array is resolved into the chain of what its elements are resolved into, where hidden elements are
left out and a single handler isn't wrapped. Here the descriptors in the leaves are put down as well,
so a nested array can be compared with the flat one of its leaves. Both answer all requests alike, as
long as the leaves answer by rules.
-/

namespace RequestRouting

open Assembly

namespace Arrangement

/-- The leaf of a resolved descriptor, unless it's hidden. -/
def ofResolved (d : Descriptor) : Resolved → Option Arrangement
  | .handler h => some (.leaf d h)
  | .hidden => none

/-- What an arrangement is resolved into. -/
def resolved : Option Arrangement → Resolved
  | some A => .handler A.handler
  | none => .hidden

/-- The chain of several parts. -/
def gather (ttl : Duration) : List Arrangement → Assembly Arrangement
  | [] => return .empty
  | [part] => return part
  | parts => do
    let place ← add (·.addChain)
    return .chain { ttl, place } parts

end Arrangement

mutual

/-- Resolves a descriptor at a URI, where arrays become arrangements. -/
def Descriptor.arrange (prebuilt : ResolvePrebuilt) :
    Descriptor → String → Assembly (Option Arrangement)
  | .hidden, _ => return none
  | .chain nodes, uri => do
    let ttl := (← context).ttl
    return some (← Arrangement.gather ttl (← arrangeAll prebuilt nodes uri))
  | .node n, uri => return Arrangement.ofResolved (.node n) (← n.resolve prebuilt uri)
  | .prebuilt name, uri => return Arrangement.ofResolved (.prebuilt name) (← prebuilt name uri)
  termination_by structural d => d

/-- Resolves descriptors at a URI in order, leaving out those that are hidden. -/
def arrangeAll (prebuilt : ResolvePrebuilt) :
    List Descriptor → String → Assembly (List Arrangement)
  | [], _ => return []
  | d :: rest, uri => do
    let part ← d.arrange prebuilt uri
    return part.toList ++ (← arrangeAll prebuilt rest uri)
  termination_by structural l => l

end

namespace Arrangement

theorem resolved_ofResolved (d : Descriptor) (r : Resolved) : resolved (ofResolved d r) = r := by
  cases r <;> rfl

theorem chainOf_handlers (ttl : Duration) (parts : List Arrangement) :
    chainOf ttl (handlers parts) = handler <$> gather ttl parts := by
  match parts with
  | [] => rfl
  | [part] => rfl
  | first :: second :: rest => rfl

end Arrangement

open Arrangement (gather leavesAll chainsAll handlers)

variable {prebuilt : ResolvePrebuilt} {uri : String}

mutual

/-- An arrangement is nothing but what a descriptor is resolved into. -/
theorem Descriptor.resolve_eq : (d : Descriptor) →
    d.resolve prebuilt uri = Arrangement.resolved <$> d.arrange prebuilt uri
  | .hidden => by
    rw [Descriptor.resolve, Descriptor.arrange]
    rfl
  | .chain nodes => by
    rw [Descriptor.resolve, Descriptor.arrange, resolveAll_eq nodes]
    simp only [map_bind, bind_map_left, Arrangement.chainOf_handlers, map_pure]
    rfl
  | .node n => by
    rw [Descriptor.resolve, Descriptor.arrange]
    simp [Arrangement.resolved_ofResolved]
  | .prebuilt name => by
    rw [Descriptor.resolve, Descriptor.arrange]
    simp [Arrangement.resolved_ofResolved]
  termination_by structural d => d

theorem resolveAll_eq : (nodes : List Descriptor) →
    resolveAll prebuilt nodes uri = handlers <$> arrangeAll prebuilt nodes uri
  | [] => by
    rw [resolveAll, arrangeAll]
    rfl
  | d :: rest => by
    rw [resolveAll, arrangeAll, d.resolve_eq, resolveAll_eq rest]
    simp only [map_bind, bind_map_left, map_pure]
    refine congrArg _ (funext fun part => ?_)
    cases part <;> simp [Arrangement.resolved, handlers]
  termination_by structural l => l

end

namespace Assembly

/-- Whether nothing but chains that remember nothing was added to those of a state. -/
def State.Grows (s t : State) : Prop :=
  ∃ n, t.world.chains = s.world.chains ++ Array.replicate n ({} : Chain.Cache)

namespace State.Grows

variable {s t u : State}

theorem refl (s : State) : s.Grows s := ⟨0, by simp⟩

theorem trans (h : s.Grows t) (h' : t.Grows u) : s.Grows u := by
  obtain ⟨m, hm⟩ := h
  obtain ⟨n, hn⟩ := h'
  refine ⟨m + n, ?_⟩
  rw [hn, hm, Array.append_assoc, Array.replicate_append_replicate]

theorem size_le (h : s.Grows t) : s.world.chains.size ≤ t.world.chains.size := by
  obtain ⟨n, hn⟩ := h
  rw [hn, Array.size_append]
  exact Nat.le_add_right _ _

/-- A chain that was added remembers nothing. -/
theorem memory_eq (h : s.Grows t) {place : Nat} (hp : s.world.chains.size ≤ place) :
    Serving.memory t.world place = {} := by
  obtain ⟨n, hn⟩ := h
  rw [Serving.memory, Array.getD_eq_getD_getElem?, hn, Array.getElem?_append_right hp,
    Array.getElem?_replicate]
  split <;> rfl

end State.Grows

theorem isClosed_grows : IsClosed State.Grows where
  refl := .refl
  trans := .trans
  chain _ := ⟨1, rfl⟩
  turn s := .refl s
  checks s := .refl s
  calls s := .refl s
  manual s _ _ := .refl s
  templates s _ _ := .refl s
  dispatch s _ := .refl s
  hide s _ := .refl s
  chainTtl _ _ _ h := h
  resolving _ _ _ h := h

/-- Whether places are different ones of the chains that were added to those of a state. -/
structure Adds (s t : State) (places : List Nat) : Prop where
  nodup : places.Nodup
  le : ∀ place ∈ places, s.world.chains.size ≤ place
  lt : ∀ place ∈ places, place < t.world.chains.size

namespace Adds

variable {s t u : State} {places more : List Nat}

theorem nil : Adds s t [] := ⟨List.nodup_nil, nofun, nofun⟩

theorem append (h : Adds s t places) (h' : Adds t u more) (hst : s.Grows t) (htu : t.Grows u) :
    Adds s u (places ++ more) where
  nodup := h.nodup.append h'.nodup fun place hp hm =>
    Nat.lt_irrefl _ (Nat.lt_of_lt_of_le (h.lt place hp) (h'.le place hm))
  le place hp := by
    obtain hp | hp := List.mem_append.mp hp
    · exact h.le place hp
    · exact Nat.le_trans hst.size_le (h'.le place hp)
  lt place hp := by
    obtain hp | hp := List.mem_append.mp hp
    · exact Nat.lt_of_lt_of_le (h.lt place hp) htu.size_le
    · exact h'.lt place hp

theorem chain (s : State) : Adds s { s with world := s.world.addChain.2 } [s.world.chains.size] where
  nodup := List.nodup_singleton _
  le place hp := by rw [List.mem_singleton.mp hp]
  lt place hp := by
    rw [List.mem_singleton.mp hp]
    exact Nat.lt_of_lt_of_eq (Nat.lt_succ_self _) (Array.size_push _).symm

end Adds

end Assembly

section Places

variable {s t : State}

/-- What is gathered has all leaves and chains of its parts, and possibly one more chain. -/
theorem Arrangement.gives_gather {ttl : Duration} {parts : List Arrangement} {A : Arrangement}
    (h : (gather ttl parts).Gives s A t) : s.Similar t ∧ s.Grows t ∧
      A.leaves = leavesAll parts ∧ ∃ places, A.places = (chainsAll parts).map (·.1) ++ places ∧
        Adds s t places := by
  match parts with
  | [] =>
    obtain ⟨rfl, rfl⟩ := gives_pure.mp h
    exact ⟨.refl s, .refl s, rfl, [], rfl, .nil⟩
  | [part] =>
    obtain ⟨rfl, rfl⟩ := gives_pure.mp h
    refine ⟨.refl s, .refl s, (leavesAll_singleton _).symm, [], ?_, .nil⟩
    rw [chainsAll_singleton, List.append_nil, places]
  | first :: second :: rest =>
    simp only [gather, gives_bind, gives_add, gives_pure] at h
    obtain ⟨_, _, ⟨rfl, rfl⟩, rfl, rfl⟩ := h
    exact ⟨⟨_, _, rfl⟩, ⟨1, rfl⟩, rfl, [s.world.chains.size], List.map_append, .chain s⟩

theorem Descriptor.grows_arrange (hp : ∀ name uri, Leads State.Grows (prebuilt name uri))
    {d : Descriptor} {A? : Option Arrangement} (h : (d.arrange prebuilt uri).Gives s A? t) :
    s.Grows t := by
  refine (d.leads_resolve isClosed_grows hp uri).gives (a := Arrangement.resolved A?) ?_
  rw [d.resolve_eq]
  exact gives_map.mpr ⟨A?, h, rfl⟩

mutual

/-- Every chain that is arranged has a place of its own. -/
theorem Descriptor.adds_arrange (hp : ∀ name uri, Leads State.Grows (prebuilt name uri)) :
    (d : Descriptor) → ∀ {s A? t}, (d.arrange prebuilt uri).Gives s A? t →
      Adds s t ((chainsAll A?.toList).map (·.1))
  | .hidden, s, A?, t, h => by
    rw [Descriptor.arrange, gives_pure] at h
    obtain ⟨rfl, rfl⟩ := h
    exact .nil
  | .chain nodes, s, A?, t, h => by
    simp only [Descriptor.arrange, gives_bind, gives_context, gives_pure] at h
    obtain ⟨_, _, ⟨rfl, rfl⟩, parts, u, hparts, A, _, hgather, rfl, rfl⟩ := h
    obtain ⟨hadds, hgrows⟩ := adds_arrangeAll hp nodes hparts
    obtain ⟨-, hgrows', -, places, hplaces, hadds'⟩ := Arrangement.gives_gather hgather
    rw [Option.toList_some, Arrangement.chainsAll_singleton, ← Arrangement.places, hplaces]
    exact hadds.append hadds' hgrows hgrows'
  | .node n, s, A?, t, h => by
    simp only [Descriptor.arrange, gives_bind, gives_pure] at h
    obtain ⟨r, _, -, rfl, rfl⟩ := h
    cases r <;> exact .nil
  | .prebuilt name, s, A?, t, h => by
    simp only [Descriptor.arrange, gives_bind, gives_pure] at h
    obtain ⟨r, _, -, rfl, rfl⟩ := h
    cases r <;> exact .nil
  termination_by structural d => d

theorem adds_arrangeAll (hp : ∀ name uri, Leads State.Grows (prebuilt name uri)) :
    (nodes : List Descriptor) → ∀ {s parts t}, (arrangeAll prebuilt nodes uri).Gives s parts t →
      Adds s t ((chainsAll parts).map (·.1)) ∧ s.Grows t
  | [], s, parts, t, h => by
    rw [arrangeAll, gives_pure] at h
    obtain ⟨rfl, rfl⟩ := h
    exact ⟨.nil, .refl s⟩
  | d :: rest, s, parts, t, h => by
    simp only [arrangeAll, gives_bind, gives_pure] at h
    obtain ⟨A?, u, hd, more, _, hrest, rfl, rfl⟩ := h
    have hadds := d.adds_arrange hp hd
    have hgrows := Descriptor.grows_arrange hp hd
    obtain ⟨hadds', hgrows'⟩ := adds_arrangeAll hp rest hrest
    refine ⟨?_, hgrows.trans hgrows'⟩
    rw [Arrangement.chainsAll_append, List.map_append]
    exact hadds.append hadds' hgrows hgrows'
  termination_by structural l => l

end

end Places

section Flat

variable {s s' t u : State}

theorem gives_arrangeAll_append {nodes nodes' : List Descriptor} {parts more : List Arrangement}
    (h : (arrangeAll prebuilt nodes uri).Gives s parts u)
    (h' : (arrangeAll prebuilt nodes' uri).Gives u more t) :
    (arrangeAll prebuilt (nodes ++ nodes') uri).Gives s (parts ++ more) t := by
  induction nodes generalizing s parts with
  | nil =>
    rw [arrangeAll, gives_pure] at h
    obtain ⟨rfl, rfl⟩ := h
    exact h'
  | cons d rest ih =>
    simp only [List.cons_append, arrangeAll, gives_bind, gives_pure] at h ⊢
    obtain ⟨A?, v, hd, _, _, hrest, rfl, rfl⟩ := h
    exact ⟨A?, v, hd, _, t, ih hrest, (List.append_assoc _ _ _).symm, rfl⟩

/-- Descriptors other than arrays are leaves. -/
theorem Descriptor.arrange_eq {d : Descriptor} (hd : ∀ nodes, d ≠ .chain nodes) :
    d.arrange prebuilt uri = Arrangement.ofResolved d <$> d.resolve prebuilt uri := by
  cases d with
  | hidden =>
    rw [Descriptor.arrange, Descriptor.resolve]
    rfl
  | chain nodes => exact absurd rfl (hd nodes)
  | node n => rw [Descriptor.arrange, Descriptor.resolve, map_eq_pure_bind]
  | prebuilt name => rw [Descriptor.arrange, Descriptor.resolve, map_eq_pure_bind]

/-- Whether descriptors that aren't arrays are resolved one after another, none of which is hidden,
which leads to a state similar to a given one. -/
def Flattens (prebuilt : ResolvePrebuilt) (uri : String) (ds : List Descriptor) (s t : State) :
    Prop :=
  ∃ (leaves : List (Descriptor × Handler)) (u : State), (arrangeAll prebuilt ds uri).Gives s
      (leaves.map fun leaf => .leaf leaf.1 leaf.2) u ∧ t.Similar u ∧
    leaves.map (·.1) = ds ∧ ∀ d ∈ ds, ∀ nodes, d ≠ .chain nodes

theorem Flattens.nil (h : t.Similar s) : Flattens prebuilt uri [] s t :=
  ⟨[], s, rfl, h, rfl, nofun⟩

theorem Flattens.append {ds ds' : List Descriptor}
    (h : Flattens prebuilt uri ds s t)
    (h' : ∀ s, t.Similar s → Flattens prebuilt uri ds' s u) :
    Flattens prebuilt uri (ds ++ ds') s u := by
  obtain ⟨leaves, v, hgives, ht, hds, harray⟩ := h
  obtain ⟨leaves', v', hgives', hu, hds', harray'⟩ := h' v ht
  refine ⟨leaves ++ leaves', v', ?_, hu, ?_, ?_⟩
  · rw [List.map_append]
    exact gives_arrangeAll_append hgives hgives'
  · rw [List.map_append, hds, hds']
  · exact List.forall_mem_append.mpr ⟨harray, harray'⟩

/-- What a prebuilt node may do, so that it's a leaf like any other. -/
structure IsLeafLike (prebuilt : ResolvePrebuilt) : Prop where
  mirrors : ∀ name uri, Mirrors (prebuilt name uri) (prebuilt name uri) SameHiding
  similar : ∀ name uri s r t, (prebuilt name uri).Gives s r t → s.Similar t

theorem Descriptor.flattens_leaf (hp : IsLeafLike prebuilt) (d : Descriptor)
    (hd : ∀ nodes, d ≠ .chain nodes) {A? : Option Arrangement}
    (h : (d.arrange prebuilt uri).Gives s A? t) (hs : s.Similar s') :
    Flattens prebuilt uri ((leavesAll A?.toList).map (·.1)) s' t := by
  rw [Descriptor.arrange_eq hd] at h
  obtain ⟨r, hr, rfl⟩ := gives_map.mp h
  cases r with
  | hidden =>
    have ht : s.Similar t := by
      obtain rfl | ⟨name, rfl⟩ := eq_of_gives_hidden hr
      · rw [Descriptor.resolve, gives_pure] at hr
        exact hr.2 ▸ .refl s
      · rw [Descriptor.resolve] at hr
        exact hp.similar name uri s _ t hr
    exact .nil (ht.symm.trans hs)
  | handler h =>
    obtain ⟨r', t', hr', hsame, ht⟩ := d.mirrors_resolve hp.mirrors uri s s' _ t hs hr
    cases r' with
    | hidden => cases hsame.mpr rfl
    | handler h' =>
      refine ⟨[(d, h')], t', ?_, ht, rfl, by simpa [Arrangement.ofResolved, leavesAll,
        Arrangement.leaves] using hd⟩
      have harrange : (d.arrange prebuilt uri).Gives s' (some (.leaf d h')) t' := by
        rw [Descriptor.arrange_eq hd]
        exact gives_map.mpr ⟨_, hr', rfl⟩
      simp only [Arrangement.ofResolved, Option.toList_some, leavesAll, Arrangement.leaves,
        List.append_nil, List.map_cons, List.map_nil, arrangeAll, gives_bind, gives_pure]
      exact ⟨_, t', harrange, [], t', ⟨rfl, rfl⟩, rfl, rfl⟩

mutual

/-- However deep a descriptor is nested, the leaves that aren't hidden can be resolved one after
another as well. -/
theorem Descriptor.flattens (hp : IsLeafLike prebuilt) :
    (d : Descriptor) → ∀ {s s' A? t}, (d.arrange prebuilt uri).Gives s A? t → s.Similar s' →
      Flattens prebuilt uri ((leavesAll A?.toList).map (·.1)) s' t
  | .hidden, _, _, _, _, h, hs => Descriptor.hidden.flattens_leaf hp nofun h hs
  | .chain nodes, s, s', A?, t, h, hs => by
    simp only [Descriptor.arrange, gives_bind, gives_context, gives_pure] at h
    obtain ⟨_, _, ⟨rfl, rfl⟩, parts, u, hparts, A, _, hgather, rfl, rfl⟩ := h
    obtain ⟨hu, -, hleaves, -⟩ := Arrangement.gives_gather hgather
    obtain ⟨leaves, v, hgives, hv, hds⟩ := flattens_all hp nodes hparts hs
    rw [Option.toList_some, Arrangement.leavesAll_singleton, hleaves]
    exact ⟨leaves, v, hgives, hu.symm.trans hv, hds⟩
  | .node n, _, _, _, _, h, hs => (Descriptor.node n).flattens_leaf hp nofun h hs
  | .prebuilt name, _, _, _, _, h, hs => (Descriptor.prebuilt name).flattens_leaf hp nofun h hs
  termination_by structural d => d

theorem flattens_all (hp : IsLeafLike prebuilt) :
    (nodes : List Descriptor) → ∀ {s s' parts t},
      (arrangeAll prebuilt nodes uri).Gives s parts t → s.Similar s' →
        Flattens prebuilt uri ((leavesAll parts).map (·.1)) s' t
  | [], s, s', parts, t, h, hs => by
    rw [arrangeAll, gives_pure] at h
    obtain ⟨rfl, rfl⟩ := h
    exact .nil hs
  | d :: rest, s, s', parts, t, h, hs => by
    simp only [arrangeAll, gives_bind, gives_pure] at h
    obtain ⟨A?, u, hd, more, _, hrest, rfl, rfl⟩ := h
    rw [Arrangement.leavesAll_append, List.map_append]
    exact (d.flattens hp hd hs).append fun _ hu => flattens_all hp rest hrest hu
  termination_by structural l => l

end

end Flat

namespace Arrangement

variable {s t : State} {A B : Arrangement}

theorem exists_gives_gather (ttl : Duration) (parts : List Arrangement) (s : State) :
    ∃ A t, (gather ttl parts).Gives s A t := by
  match parts with
  | [] => exact ⟨_, s, rfl⟩
  | [part] => exact ⟨part, s, rfl⟩
  | _ :: _ :: _ => exact ⟨_, _, rfl⟩

theorem noneEmpty_gather {ttl : Duration} {parts : List Arrangement} (hn : parts ≠ [])
    (hp : NoneEmptyAll parts) (h : (gather ttl parts).Gives s A t) : A.NoneEmpty := by
  match parts with
  | [] => exact absurd rfl hn
  | [part] =>
    obtain ⟨rfl, -⟩ := gives_pure.mp h
    exact hp.1
  | _ :: _ :: _ =>
    simp only [gather, gives_bind, gives_add, gives_pure] at h
    obtain ⟨_, _, -, rfl, -⟩ := h
    exact ⟨hn, hp⟩

theorem noneEmptyAll_leaves (leaves : List (Descriptor × Handler)) :
    NoneEmptyAll (leaves.map fun leaf => .leaf leaf.1 leaf.2) := by
  induction leaves with
  | nil => trivial
  | cons leaf rest ih => exact ⟨trivial, ih⟩

theorem leavesAll_leaves (leaves : List (Descriptor × Handler)) :
    leavesAll (leaves.map fun leaf => .leaf leaf.1 leaf.2) = leaves := by
  induction leaves with
  | nil => rfl
  | cons leaf rest ih => rw [List.map_cons, leavesAll, ih]; rfl

/-- What was just arranged has chains of different places, and remembers nothing. -/
theorem nodup_and_isSound (hp : ∀ name uri, Leads State.Grows (prebuilt name uri)) {d : Descriptor}
    (h : (d.arrange prebuilt uri).Gives s (some A) t) :
    A.places.Nodup ∧ ∀ ρ, A.IsSound ρ t.world := by
  have hadds := d.adds_arrange hp h
  rw [Option.toList_some, chainsAll_singleton, ← places] at hadds
  refine ⟨hadds.nodup, fun ρ c hc => ?_⟩
  have hplace := hadds.le c.1 (List.mem_map_of_mem hc)
  rw [(Descriptor.grows_arrange hp h).memory_eq hplace]
  exact Chain.sound_of_empty rfl

/-- Whether two arrangements give the same responses in every run of requests, each of which is made
after some time, if the leaves of both answer by the same rules, and neither remembers a winner that
isn't that of a search. -/
def SameResponses (A B : Arrangement) : Prop :=
  ∀ (ρ : Descriptor → Chain.Rule) (calm calm' : World → Prop) (jump jump' : Jump),
    A.Answers ρ calm jump → B.Answers ρ calm' jump' → ∀ w w', calm w → A.IsSound ρ w →
      calm' w' → B.IsSound ρ w' → ∀ requests, ∃ responses w₁ w₂,
        A.handler.answerAll jump requests w = some (responses, w₁) ∧
        B.handler.answerAll jump' requests w' = some (responses, w₂)

theorem sameResponses (ha : A.places.Nodup) (hb : B.places.Nodup) (ha' : A.NoneEmpty)
    (hb' : B.NoneEmpty) (hd : B.descriptors = A.descriptors) : A.SameResponses B := by
  intro ρ calm calm' jump jump' hanswers hanswers' w w' hw hs hw' hs' requests
  obtain ⟨w₁, h₁⟩ := answerAll_eq hanswers ha ha' requests hw hs
  obtain ⟨w₂, h₂⟩ := answerAll_eq hanswers' hb hb' requests hw' hs'
  rw [hd] at h₂
  exact ⟨_, w₁, w₂, h₁, h₂⟩

end Arrangement

/-- Prebuilt nodes are leaves, however deep they're nested. -/
theorem isLeafLike_resolvePrebuilt (fuel : Nat) : IsLeafLike (resolvePrebuilt fuel) where
  mirrors := mirrors_resolvePrebuilt fuel
  similar _ _ _ _ _ h := similar_resolvePrebuilt h

/-- An array that arrays are nested in, to any depth, gives the same responses in every run of
requests as the flat array of the leaves that aren't hidden, in order, unless one of the arrays is
empty once hidden elements are left out. The flat array can be resolved if the nested one can. This
holds if each leaf answers by a rule, as it does if its answers depend on the request alone, and if
it depends on the reference of the request alone which of them are 404. -/
theorem array_flattens {fuel : Nat} {nodes : List Descriptor} {uri : String} {s t : State}
    {nested : Handler}
    (h : ((Descriptor.chain nodes).resolve (resolvePrebuilt fuel) uri).Gives s (.handler nested) t) :
    ∃ A, ((Descriptor.chain nodes).arrange (resolvePrebuilt fuel) uri).Gives s (some A) t ∧
      A.handler = nested ∧ (∀ ρ, A.IsSound ρ t.world) ∧
      (A.NoneEmpty → ∃ B u,
        ((Descriptor.chain A.descriptors).resolve (resolvePrebuilt fuel) uri).Gives s
          (.handler B.handler) u ∧
        ((Descriptor.chain A.descriptors).arrange (resolvePrebuilt fuel) uri).Gives s (some B) u ∧
        B.descriptors = A.descriptors ∧ (∀ d ∈ A.descriptors, ∀ nodes, d ≠ .chain nodes) ∧
        (∀ ρ, B.IsSound ρ u.world) ∧ A.SameResponses B) := by
  have hgrows : ∀ name uri, Leads State.Grows (resolvePrebuilt fuel name uri) :=
    leads_resolvePrebuilt isClosed_grows fuel
  rw [Descriptor.resolve_eq] at h
  obtain ⟨A?, harrange, hresolved⟩ := gives_map.mp h
  cases A? with
  | none => cases hresolved
  | some A =>
    obtain rfl := Resolved.handler.inj hresolved
    obtain ⟨hnodup, hsound⟩ := Arrangement.nodup_and_isSound hgrows harrange
    refine ⟨A, harrange, rfl, hsound, fun hn => ?_⟩
    -- the leaves one after another, gathered into a single chain
    obtain ⟨leaves, v, hleaves, -, hds, harray⟩ :=
      Descriptor.flattens (isLeafLike_resolvePrebuilt fuel) _ harrange (.refl s)
    rw [Option.toList_some, Arrangement.leavesAll_singleton, ← Arrangement.descriptors]
      at hleaves hds harray
    obtain ⟨B, u, hgather⟩ := Arrangement.exists_gives_gather s.context.ttl
      (leaves.map fun leaf => .leaf leaf.1 leaf.2) v
    have hflat : ((Descriptor.chain A.descriptors).arrange (resolvePrebuilt fuel) uri).Gives s
        (some B) u := by
      simp only [Descriptor.arrange, gives_bind, gives_context, gives_pure]
      exact ⟨_, s, ⟨rfl, rfl⟩, _, v, hleaves, B, u, hgather, rfl, rfl⟩
    obtain ⟨hnodup', hsound'⟩ := Arrangement.nodup_and_isSound hgrows hflat
    have hB : B.descriptors = A.descriptors := by
      obtain ⟨-, -, hgathered, -⟩ := Arrangement.gives_gather hgather
      rw [Arrangement.descriptors, hgathered, Arrangement.leavesAll_leaves, hds]
    have hne : leaves ≠ [] := by
      rintro rfl
      exact A.leaves_ne_nil hn (List.map_eq_nil_iff.mp hds.symm)
    have hn' : B.NoneEmpty := Arrangement.noneEmpty_gather (mt List.map_eq_nil_iff.mp hne)
      (Arrangement.noneEmptyAll_leaves leaves) hgather
    refine ⟨B, u, ?_, hflat, hB, harray, hsound',
      Arrangement.sameResponses hnodup hnodup' hn hn' hB⟩
    rw [Descriptor.resolve_eq]
    exact gives_map.mpr ⟨some B, hflat, rfl⟩

/-- The rule that gives all requests the same status. -/
def Chain.Rule.constant (status : Status) : Rule where
  answer _ := .ofStatus status
  applies _ := status ≠ .notFound
  answer_notFound _ := by
    change status = .notFound ↔ _
    simp

/-- Leaves that answer with a status each do so in all worlds. -/
theorem Arrangement.answers_of_status {A : Arrangement} {ρ : Descriptor → Chain.Rule} {jump : Jump}
    (h : ∀ leaf ∈ A.leaves, ∃ status, leaf.2 = .status status ∧ ρ leaf.1 = .constant status) :
    A.Answers ρ (fun _ => True) jump where
  sleep _ _ _ := trivial
  remember _ _ _ _ _ := trivial
  leaf leaf hl := by
    obtain ⟨status, hhandler, hrule⟩ := h leaf hl
    rw [hhandler, hrule]
    exact fun _ w hw => ⟨w, rfl, hw⟩

/-- The rule of a node that answers with a status. -/
def statusRule : Descriptor → Chain.Rule
  | .node (.status node) => .constant ((Status.ofCode? node.code).getD .notFound)
  | _ => .first []

/-- An array of arrays, one of which has a single element that isn't hidden, and one another array. -/
def nestedArray : List Descriptor :=
  [.chain [.hidden, .node (.status { code := 404 })],
    .chain [.chain [.node (.status { code := 404 }), .node (.status { code := 201 })], .hidden],
    .node (.status { code := 202 })]

/-- The leaves of the array. -/
def nestedLeaves : List Arrangement :=
  [.leaf (.node (.status { code := 404 })) (.status .notFound),
    .leaf (.node (.status { code := 404 })) (.status .notFound),
    .leaf (.node (.status { code := 201 })) (.status .created),
    .leaf (.node (.status { code := 202 })) (.status .accepted)]

/-- What the array is resolved into. -/
def nestedArrangement : Arrangement :=
  .chain ⟨(freshState {}).context.ttl, 1⟩ [nestedLeaves[0],
    .chain ⟨(freshState {}).context.ttl, 0⟩ [nestedLeaves[1], nestedLeaves[2]], nestedLeaves[3]]

/-- The array of arrays is resolved into two chains, and answers as the flat one, a single chain. -/
theorem array_flattens_nested : ∃ (B : Arrangement) (t u : State),
    ((Descriptor.chain nestedArray).resolve (resolvePrebuilt 1) "/").Gives (freshState {})
      (.handler nestedArrangement.handler) t ∧
    ((Descriptor.chain nestedArrangement.descriptors).resolve (resolvePrebuilt 1) "/").Gives
      (freshState {}) (.handler B.handler) u ∧
    nestedArrangement.places = [0, 1] ∧ B.places = [0] ∧
    ∀ requests, ∃ responses w₁ w₂,
      nestedArrangement.handler.answerAll (World.jump 0) requests t.world =
        some (responses, w₁) ∧
      B.handler.answerAll (World.jump 0) requests u.world = some (responses, w₂) := by
  obtain ⟨t, harrange⟩ : ∃ t,
      ((Descriptor.chain nestedArray).arrange (resolvePrebuilt 1) "/").Gives (freshState {})
        (some nestedArrangement) t := ⟨_, rfl⟩
  have hresolve : ((Descriptor.chain nestedArray).resolve (resolvePrebuilt 1) "/").Gives
      (freshState {}) (.handler nestedArrangement.handler) t := by
    rw [Descriptor.resolve_eq]
    exact gives_map.mpr ⟨_, harrange, rfl⟩
  obtain ⟨A, hA, -, hsound, hflat⟩ := array_flattens hresolve
  obtain rfl : A = nestedArrangement := Option.some.inj (harrange.unique hA).1
  obtain ⟨B, u, hB, harrange', -, -, hsound', hsame⟩ := hflat (by simp [nestedArrangement,
    nestedLeaves, Arrangement.NoneEmpty, Arrangement.NoneEmptyAll])
  obtain ⟨u', hflat⟩ : ∃ u', ((Descriptor.chain nestedArrangement.descriptors).arrange
      (resolvePrebuilt 1) "/").Gives (freshState {})
        (some (.chain ⟨(freshState {}).context.ttl, 0⟩ nestedLeaves)) u' := ⟨_, rfl⟩
  obtain rfl : B = .chain ⟨(freshState {}).context.ttl, 0⟩ nestedLeaves :=
    Option.some.inj (hflat.unique harrange').1
  have hleaves : ∀ leaf ∈ Arrangement.leavesAll nestedLeaves, ∃ status,
      leaf.2 = .status status ∧ statusRule leaf.1 = .constant status := by
    simp only [nestedLeaves, Arrangement.leavesAll, Arrangement.leaves, List.singleton_append,
      List.append_nil, List.forall_mem_cons]
    exact ⟨⟨_, rfl, rfl⟩, ⟨_, rfl, rfl⟩, ⟨_, rfl, rfl⟩, ⟨_, rfl, rfl⟩, List.forall_mem_nil _⟩
  exact ⟨_, t, u, hresolve, hB, rfl, rfl, hsame statusRule _ _ _ _
    (Arrangement.answers_of_status hleaves) (Arrangement.answers_of_status hleaves) _ _ trivial
    (hsound _) trivial (hsound' _)⟩

end RequestRouting
