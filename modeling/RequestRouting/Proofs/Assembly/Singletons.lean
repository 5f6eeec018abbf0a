import RequestRouting.Proofs.Assembly.Finished
import RequestRouting.Proofs.Assembly.Keeping
import RequestRouting.Proofs.Documents.PassThrough

/-!
# Resources there is one of

The manual and the template resource are registered wherever one of their nodes is resolved, and each
time the slot that stands for the resource is handed out. The first registration determines the
configuration, the others must be bare or agree with it. What was registered when is put down in a
log here, whatever else is done in between, up to the end, when both resources are built and their
slots are bound.
-/

namespace RequestRouting

namespace Assembly

/-- A registration of the manual or of the template resource. -/
inductive Registration where
  | manual (node : ManualNode)
  | templates (node : TemplatesNode)
  deriving DecidableEq

namespace Registration

/-- Registers the resource, yielding the slot that stands for it. -/
def run : Registration → Assembly Nat
  | manual node => registerManual node
  | templates node => registerTemplates node

/-- What the resource is called. -/
def label : Registration → String
  | manual _ => "manual"
  | templates _ => "templates"

/-- Whether nothing is configured. -/
def isBare : Registration → Bool
  | manual node => node = {}
  | templates node => node = {}

/-- Whether a resource is configured in the same way twice. -/
def isSame : Registration → Registration → Bool
  | manual a, manual b => sameManual a b
  | templates a, templates b => sameTemplates a b
  | _, _ => false

/-- What a context has stored of the resource that is registered. -/
def stored? (c : Context) : Registration → Option (Singleton Registration)
  | manual _ => c.manual.map fun m => ⟨manual m.config, m.slot⟩
  | templates _ => c.templates.map fun t => ⟨templates t.config, t.slot⟩

/-- Builds the resource, given the dispatchers that are referred to. -/
def build (targets : List DispatchTarget) : Registration → Assembly Handler
  | manual node => buildManual (node.withTargets targets)
  | templates node => buildTemplates node

/-- Whether a document passes through the resource, given the dispatchers that are referred to: those
of dispatchers pass through the manual resource. -/
def Passes (targets : List DispatchTarget) (name : String) : Registration → Prop
  | manual node => name ∈ node.passThroughs.getD [] ∨
    ∃ target ∈ targets, name = Text.trim (· = '/') target.dispatcher
  | templates node => name ∈ node.passThroughs.getD []

variable {r r' : Registration} {c : Context} {s t : State}

theorem stored?_congr (h : r.label = r'.label) (c : Context) : r.stored? c = r'.stored? c := by
  cases r <;> cases r' <;> first | rfl | simp [label] at h

/-- The first registration stores the configuration, with a new slot. -/
theorem run_of_none (h : r.stored? s.context = none) : ∃ c,
    r.run s = (.ok s.world.slots.size, ⟨c, s.world.addSlot.2⟩) ∧
      ∀ r' : Registration, r'.stored? c =
        if r.label = r'.label then some ⟨r, s.world.slots.size⟩ else r'.stored? s.context := by
  cases r with
  | manual node =>
    refine ⟨{ s.context with manual := some ⟨node, s.world.slots.size⟩ }, ?_, ?_⟩
    · rw [run, registerManual, context_bind_apply, Option.map_eq_none_iff.mp h]
      rfl
    · rintro (_ | _) <;> rfl
  | templates node =>
    refine ⟨{ s.context with templates := some ⟨node, s.world.slots.size⟩ }, ?_, ?_⟩
    · rw [run, registerTemplates, context_bind_apply, Option.map_eq_none_iff.mp h]
      rfl
    · rintro (_ | _) <;> rfl

theorem pure_or_throw (p : Prop) [Decidable p] (slot : Nat) (e : Error) (s : State) :
    (if p then pure slot else throw e : Assembly Nat) s =
      (if p then .ok slot else .error e, s) := by
  by_cases hp : p
  · rw [if_pos hp, if_pos hp]
    rfl
  · rw [if_neg hp, if_neg hp]
    rfl

/-- Another registration either hands out the slot once more, or fails. Nothing is changed. -/
theorem run_of_some {m : Singleton Registration} (h : r.stored? s.context = some m) :
    r.run s = (if r.isBare || r.isSame m.config then .ok m.slot else .error (.singleton r.label),
      s) := by
  cases r with
  | manual node =>
    obtain ⟨existing, hm, rfl⟩ := Option.map_eq_some_iff.mp h
    rw [run, registerManual, context_bind_apply, hm]
    exact pure_or_throw _ _ _ s
  | templates node =>
    obtain ⟨existing, ht, rfl⟩ := Option.map_eq_some_iff.mp h
    rw [run, registerTemplates, context_bind_apply, ht]
    exact pure_or_throw _ _ _ s

theorem isSame_self (r : Registration) : r.isSame r = true := by
  cases r <;> simp [isSame, sameManual, sameTemplates, samePath, samePaths]

end Registration

/-- Whether nothing is registered between two states, and slots that are there are left alone. -/
structure Unregistered (s t : State) : Prop where
  manual : t.context.manual = s.context.manual
  templates : t.context.templates = s.context.templates
  slots : KeepsItems s.world.slots t.world.slots

/-- Registrations in the order in which they were made, with what each of them resulted in. -/
abbrev Log := List (Registration × Except Error Nat)

/-- The registrations that are made from a state on. In between, anything may be done that isn't a
registration. -/
inductive History (s₀ : State) : Log → State → Prop where
  | start : History s₀ [] s₀
  | other {log : Log} {s t : State} (h : History s₀ log s) (hu : Unregistered s t) :
      History s₀ log t
  | register {log : Log} {s : State} (h : History s₀ log s) (r : Registration) :
      History s₀ (log ++ [(r, (r.run s).1)]) (r.run s).2

/-- The first registration of a resource. -/
def first? (log : Log) (r : Registration) : Option Registration :=
  (log.map (·.1)).find? (·.label = r.label)

/-- What is stored after a number of registrations: of each resource the first one, with a slot that
isn't bound yet, that it shares with no other resource, and that was handed out every time. -/
structure Stores (log : Log) (s : State) : Prop where
  config : ∀ r : Registration, (r.stored? s.context).map (·.config) = first? log r
  unbound : ∀ (r : Registration) m, r.stored? s.context = some m →
    s.world.slots[m.slot]? = some .unbound
  distinct : ∀ (r r' : Registration) m m', r.stored? s.context = some m →
    r'.stored? s.context = some m' → r.label ≠ r'.label → m.slot ≠ m'.slot
  handed : ∀ (r : Registration) place, (r, .ok place) ∈ log →
    (r.stored? s.context).map (·.slot) = some place

section Stored

variable {log : Log} {r : Registration} {s s₀ t u : State}

theorem first?_concat (r' : Registration) (result : Except Error Nat) :
    first? (log ++ [(r', result)]) r =
      (first? log r).or (if r'.label = r.label then some r' else none) := by
  rw [first?, List.map_append, List.find?_append]
  by_cases hl : r'.label = r.label <;> simp [first?, hl]

theorem first?_congr {r' : Registration} (h : r.label = r'.label) :
    first? log r = first? log r' := by
  rw [first?, first?, h]

theorem stores_of_none (hm : s.context.manual = none) (ht : s.context.templates = none) :
    Stores [] s := by
  have hn (r : Registration) : r.stored? s.context = none := by
    cases r with
    | manual node => exact Option.map_eq_none_iff.mpr hm
    | templates node => exact Option.map_eq_none_iff.mpr ht
  refine ⟨fun r => by rw [hn]; rfl, ?_, ?_, fun _ _ hp => absurd hp List.not_mem_nil⟩
  · intro r m h
    rw [hn] at h
    cases h
  · intro r r' m m' h
    rw [hn] at h
    cases h

namespace Stores

variable (h : Stores log s)
include h

theorem lt_size {m : Singleton Registration} (hr : r.stored? s.context = some m) :
    m.slot < s.world.slots.size :=
  (Array.getElem?_eq_some_iff.mp (h.unbound r m hr)).1

theorem other (hu : Unregistered s t) : Stores log t := by
  have hs (r : Registration) : r.stored? t.context = r.stored? s.context := by
    cases r with
    | manual node => rw [Registration.stored?, hu.manual]; rfl
    | templates node => rw [Registration.stored?, hu.templates]; rfl
  obtain ⟨hconfig, hunbound, hdistinct, hhanded⟩ := h
  refine ⟨?_, ?_, ?_, ?_⟩
  · intro r
    rw [hs, hconfig]
  · intro r m hr
    rw [hs] at hr
    have hfree := hunbound r m hr
    rw [hu.slots _ (Array.getElem?_eq_some_iff.mp hfree).1, hfree]
  · intro r r' m m' hr hr'
    rw [hs] at hr hr'
    exact hdistinct r r' m m' hr hr'
  · intro r place hp
    rw [hs, hhanded r place hp]

/-- The first registration of a resource. -/
theorem register_none (hn : r.stored? s.context = none) :
    Stores (log ++ [(r, (r.run s).1)]) (r.run s).2 := by
  obtain ⟨c, hrun, hstored⟩ := Registration.run_of_none hn
  have hpush {place : Nat} (hp : place < s.world.slots.size) :
      s.world.addSlot.2.slots[place]? = s.world.slots[place]? :=
    (KeepsItems.refl s.world.slots).push (Slot.unbound : Slot Handler) place hp
  rw [hrun]
  refine ⟨?_, ?_, ?_, ?_⟩
  · intro r'
    rw [first?_concat, hstored]
    split
    · rename_i hl
      rw [← first?_congr hl, ← h.config, hn]
      rfl
    · rw [h.config, Option.or_none]
  · intro r' m hm
    rw [hstored] at hm
    split at hm
    · obtain rfl := Option.some.inj hm
      exact Array.getElem?_push_size
    · rw [hpush (h.lt_size hm), h.unbound r' m hm]
  · intro r₁ r₂ m₁ m₂ h₁ h₂ hl
    rw [hstored] at h₁ h₂
    split at h₁ <;> split at h₂
    · rename_i hl₁ hl₂
      exact absurd (hl₁.symm.trans hl₂) hl
    · obtain rfl := Option.some.inj h₁
      exact Nat.ne_of_gt (h.lt_size h₂)
    · obtain rfl := Option.some.inj h₂
      exact Nat.ne_of_lt (h.lt_size h₁)
    · exact h.distinct r₁ r₂ m₁ m₂ h₁ h₂ hl
  · intro r' place hp
    rw [hstored]
    obtain hp | hp := List.mem_append.mp hp
    · have hs := h.handed r' place hp
      rw [if_neg, hs]
      intro hl
      rw [← Registration.stored?_congr hl, hn] at hs
      cases hs
    · obtain ⟨rfl, hok⟩ := Prod.mk.inj (List.mem_singleton.mp hp)
      rw [if_pos rfl]
      exact congrArg some (Except.ok.inj hok).symm

/-- Another registration of a resource. -/
theorem register_some {m : Singleton Registration} (hm : r.stored? s.context = some m) :
    Stores (log ++ [(r, (r.run s).1)]) (r.run s).2 := by
  rw [Registration.run_of_some hm]
  refine ⟨?_, h.unbound, h.distinct, ?_⟩
  · intro r'
    rw [first?_concat, h.config]
    by_cases hl : r.label = r'.label
    · rw [← first?_congr hl, ← h.config, hm]
      rfl
    · rw [if_neg hl, Option.or_none]
  · intro r' place hp
    obtain hp | hp := List.mem_append.mp hp
    · exact h.handed r' place hp
    · obtain ⟨rfl, hok⟩ := Prod.mk.inj (List.mem_singleton.mp hp)
      rw [hm]
      split at hok
      · exact congrArg some (Except.ok.inj hok).symm
      · cases hok

end Stores

theorem History.stores (hm : s₀.context.manual = none) (ht : s₀.context.templates = none)
    (h : History s₀ log s) : Stores log s := by
  induction h with
  | start => exact stores_of_none hm ht
  | other _ hu ih => exact ih.other hu
  | @register log s _ r ih =>
    cases hr : r.stored? s.context with
    | none => exact ih.register_none hr
    | some m => exact ih.register_some hr

/-! Where registrations come from. -/

/-- Whether what was registered up to a state is registered up to another one, and maybe more. -/
def Continues (s t : State) : Prop :=
  ∀ s₀ log, History s₀ log s → ∃ more, History s₀ (log ++ more) t

theorem Continues.other (hu : Unregistered s t) : Continues s t :=
  fun _ _ h => ⟨[], by rw [List.append_nil]; exact h.other hu⟩

theorem Continues.trans (h : Continues s t) (h' : Continues t u) : Continues s u := by
  intro s₀ log hs
  obtain ⟨more, ht⟩ := h s₀ log hs
  obtain ⟨more', hu⟩ := h' s₀ _ ht
  exact ⟨more ++ more', by rw [← List.append_assoc]; exact hu⟩

/-- What is changed for the time being has nothing to do with registrations. -/
theorem Continues.within {s' t' : State} (h : Continues s' t') (hs : Unregistered s s')
    (ht : Unregistered t' t) : Continues s t :=
  (Continues.other hs).trans (h.trans (.other ht))

/-- Resolving a descriptor is nothing but registrations and what may be done in between. -/
theorem isClosed_continues : IsClosed Continues where
  refl _ := .other ⟨rfl, rfl, .refl _⟩
  trans := .trans
  chain _ := .other ⟨rfl, rfl, .refl _⟩
  turn _ := .other ⟨rfl, rfl, .refl _⟩
  checks _ := .other ⟨rfl, rfl, .refl _⟩
  calls _ := .other ⟨rfl, rfl, .refl _⟩
  manual s config hn s₀ log h := by
    have hr := h.register (.manual config)
    rw [Registration.run, registerManual, context_bind_apply, hn] at hr
    exact ⟨_, hr⟩
  templates s config hn s₀ log h := by
    have hr := h.register (.templates config)
    rw [Registration.run, registerTemplates, context_bind_apply, hn] at hr
    exact ⟨_, hr⟩
  dispatch _ _ := .other ⟨rfl, rfl, .refl _⟩
  hide _ _ := .other ⟨rfl, rfl, .refl _⟩
  chainTtl _ _ _ h := h.within ⟨rfl, rfl, .refl _⟩ ⟨rfl, rfl, .refl _⟩
  resolving _ _ _ h := h.within ⟨rfl, rfl, .refl _⟩ ⟨rfl, rfl, .refl _⟩

/-- Registrations go on when a descriptor is resolved, be it that this succeeds or fails. -/
theorem History.resolve (h : History s₀ log s) (d : Descriptor) (uri : String) :
    ∃ more, History s₀ (log ++ more) (resolve d uri s).2 :=
  leads_resolve isClosed_continues d uri s s₀ log h

end Stored

section Finished

variable {log : Log} {r : Registration} {s s₀ t u : State}
  {mount : Option (String × Nat)}

theorem gives_build {targets : List DispatchTarget} {handler : Handler}
    (h : (r.build targets).Gives s handler t) :
    t.context = s.context ∧ s.world.SameHandlers t.world ∧
      ∃ d, IsResource d handler ∧ ∀ name, name ∈ d.passThroughs ↔ r.Passes targets name := by
  cases r with
  | manual node =>
    obtain ⟨hc, hw, d, hd, hmanual⟩ := gives_buildManual h
    refine ⟨hc, hw, d, hd, fun name => ?_⟩
    rw [hmanual.passThroughs]
    exact node.mem_withTargets_iff
  | templates node =>
    simp only [Registration.build, buildTemplates, gives_bind, gives_context, gives_add] at h
    obtain ⟨root, _, hroot, c, _, ⟨rfl, rfl⟩, place, _, ⟨rfl, rfl⟩, h⟩ := h
    obtain rfl := gives_documentRoot hroot
    obtain ⟨rfl, hr⟩ := gives_compressed h
    exact ⟨rfl, ⟨rfl, rfl, rfl⟩, _, hr, fun name => Iff.rfl⟩

/-- A slot that isn't bound yet is bound to the given handler, and all others are left alone. -/
theorem slots_of_bind {place : Nat} {handler : Handler} {x : Unit}
    (h : (Assembly.bind place handler).Gives s x t) :
    t.context = s.context ∧
      (s.world.slots[place]? = some .unbound → t.world.slots[place]? = some (.owned handler)) ∧
      ∀ other, place ≠ other → t.world.slots[other]? = s.world.slots[other]? := by
  obtain rfl := gives_modify.mp h
  refine ⟨rfl, fun hfree => ?_, fun other ho => ?_⟩
  · rw [getElem?_updateSlot, if_pos rfl, hfree]
    rfl
  · rw [getElem?_updateSlot, if_neg ho]

/-- What a resource is built into, once everything is resolved: a document resource with all that
passes through the first registration. -/
structure IsOutcome (s : State) (r : Registration) (handler : Handler) : Prop where
  built : ∃ u v, (∃ dispatch, u.context = { s.context with dispatch }) ∧
    (r.build s.context.dispatch.referenced).Gives u handler v
  passes : ∃ d, IsResource d handler ∧
    ∀ name, name ∈ d.passThroughs ↔ r.Passes s.context.dispatch.referenced name

/-- The template resource is built first. -/
theorem exists_of_finish (h : finish.Gives s mount t) : ∃ u, u.context = s.context ∧
    (finishManual s.context).Gives u mount t ∧
    (∀ place, (∀ m, s.context.templates = some m → m.slot ≠ place) →
      u.world.slots[place]? = s.world.slots[place]?) ∧
    ∀ m, s.context.templates = some m → s.world.slots[m.slot]? = some .unbound →
      ∃ handler, u.world.slots[m.slot]? = some (.owned handler) ∧
        IsOutcome s (.templates m.config) handler := by
  rw [finish_eq] at h
  simp only [gives_bind, gives_context] at h
  obtain ⟨c, _, ⟨rfl, rfl⟩, h⟩ := h
  cases ht : s.context.templates with
  | none =>
    simp only [ht] at h
    refine ⟨s, rfl, h, fun _ _ => rfl, ?_⟩
    rintro _ ⟨⟩
  | some templates =>
    simp only [ht, gives_bind] at h
    obtain ⟨handler, v, hb, _, u, hbind, h⟩ := h
    have hb' : ((Registration.templates templates.config).build
        s.context.dispatch.referenced).Gives s handler v := by rwa [Registration.build]
    obtain ⟨hc, hw, hd⟩ := gives_build hb'
    obtain ⟨hc', hown, hothers⟩ := slots_of_bind hbind
    refine ⟨u, hc'.trans hc, h, fun place hp => ?_, ?_⟩
    · rw [hothers place (hp templates rfl), hw.slots]
    · rintro _ ⟨⟩ hfree
      rw [hw.slots] at hfree
      exact ⟨handler, hown hfree, ⟨s, v, ⟨s.context.dispatch, rfl⟩, hb'⟩, hd⟩

/-- The manual resource is built after it. -/
theorem slots_of_finishManual (hu : u.context = s.context)
    (h : (finishManual s.context).Gives u mount t) :
    (∀ place, (∀ m, s.context.manual = some m → m.slot ≠ place) →
      t.world.slots[place]? = u.world.slots[place]?) ∧
    ∀ m, s.context.manual = some m → u.world.slots[m.slot]? = some .unbound →
      ∃ handler, t.world.slots[m.slot]? = some (.owned handler) ∧
        IsOutcome s (.manual m.config) handler := by
  unfold finishManual at h
  cases hm : s.context.manual with
  | none =>
    simp only [hm] at h
    split at h
    · obtain ⟨-, rfl⟩ := gives_pure.mp h
      refine ⟨fun _ _ => rfl, ?_⟩
      rintro _ ⟨⟩
    · exact absurd h gives_throw
  | some manual =>
    simp only [hm, gives_bind, gives_pure] at h
    obtain ⟨_, u₁, hp, handler, u₂, hb, _, _, hbind, -, rfl⟩ := h
    simp only [publishTargets, gives_bind, gives_context, gives_modify] at hp
    obtain ⟨_, _, ⟨rfl, rfl⟩, hp⟩ := hp
    have hc : ∃ dispatch, u₁.context = { s.context with dispatch } :=
      ⟨u₁.context.dispatch, by rw [← hp, ← hu]⟩
    have hb' : ((Registration.manual manual.config).build
        s.context.dispatch.referenced).Gives u₁ handler u₂ := by rwa [Registration.build]
    obtain ⟨-, hw, hd⟩ := gives_build hb'
    obtain ⟨-, hown, hothers⟩ := slots_of_bind hbind
    have hslots : u.world.slots = u₂.world.slots := by rw [← hw.slots, ← hp]
    refine ⟨fun place hp => ?_, ?_⟩
    · rw [hothers place (hp manual rfl), hslots]
    · rintro _ ⟨⟩ hfree
      rw [hslots] at hfree
      exact ⟨handler, hown hfree, ⟨u₁, u₂, hc, hb'⟩, hd⟩

/-- Once an application is finished, the slot of a resource is bound to what the first registration
is built into. -/
theorem Stores.finish (h : Stores log s) (hf : finish.Gives s mount t) {m : Singleton Registration}
    (hm : r.stored? s.context = some m) :
    ∃ handler, t.world.slots[m.slot]? = some (.owned handler) ∧ IsOutcome s m.config handler := by
  obtain ⟨u, hu, hmanual, hkept, htemplates⟩ := exists_of_finish hf
  obtain ⟨hkept', hmanual'⟩ := slots_of_finishManual hu hmanual
  have hfree := h.unbound r m hm
  cases r with
  | manual node =>
    obtain ⟨manual, hs, rfl⟩ := Option.map_eq_some_iff.mp hm
    refine hmanual' manual hs ((hkept _ fun tm ht => ?_).trans hfree)
    exact h.distinct (.templates {}) (.manual node) ⟨.templates tm.config, tm.slot⟩ _
      (by rw [Registration.stored?, ht]; rfl) hm (by simp [Registration.label])
  | templates node =>
    obtain ⟨templates, hs, rfl⟩ := Option.map_eq_some_iff.mp hm
    obtain ⟨handler, hown, houtcome⟩ := htemplates templates hs hfree
    refine ⟨handler, (hkept' _ fun mm hmm => ?_).trans hown, houtcome⟩
    exact h.distinct (.manual {}) (.templates node) ⟨.manual mm.config, mm.slot⟩ _
      (by rw [Registration.stored?, hmm]; rfl) hm (by simp [Registration.label])

/-- A slot answers like the handler it's bound to. -/
theorem answer_slot {place : Nat} {handler : Handler} {w w' : World}
    (h : w.slots[place]? = some (.owned handler)) (hw : w.SameHandlers w') (fuel : Nat)
    (req : Request) :
    World.answer (fuel + 1) (.slot place) req w' = World.answer fuel handler req w' := by
  have hh : w'.handler? (.slot place) = some handler := by
    rw [hw.handler?_eq, World.handler?, h]
    rfl
  rw [World.answer, Handler.run, World.jump_succ, hh]
  rfl

/-- Of each resource, it's always the first registration that is stored. Another one fails exactly if
it's neither bare nor the same as the first one, and changes nothing then. Once the application is
finished, all slots that were handed out for a resource answer like one and the same handler, which
is built from the first registration, and which documents of dispatchers pass through in case of the
manual resource. -/
theorem singleton_of_history (hm : s₀.context.manual = none) (ht : s₀.context.templates = none)
    (h : History s₀ log s) :
    (∀ r : Registration,
      (r.stored? s.context).map (·.config) = first? log r ∧
      ((∃ e, (r.run s).1 = .error e) ↔
        r.isBare = false ∧ r.isSame ((first? log r).getD r) = false) ∧
      ∀ e, (r.run s).1 = .error e → e = .singleton r.label ∧ (r.run s).2 = s) ∧
    ∀ mount t, finish.Gives s mount t → ∀ p ∈ log, ∃ handler,
      IsOutcome s ((first? log p.1).getD p.1) handler ∧
      ∀ r place, (r, .ok place) ∈ log → r.label = p.1.label →
        ∀ w, t.world.SameHandlers w → ∀ fuel req,
          World.answer (fuel + 1) (.slot place) req w = World.answer fuel handler req w := by
  have hs := h.stores hm ht
  refine ⟨fun r => ⟨hs.config r, ?_⟩, fun mount t hf p hp => ?_⟩
  · cases hr : r.stored? s.context with
    | none =>
      obtain ⟨c, hrun, -⟩ := Registration.run_of_none hr
      have hfirst : first? log r = none := by rw [← hs.config, hr]; rfl
      rw [hrun, hfirst, Option.getD_none, r.isSame_self]
      exact ⟨iff_of_false (fun ⟨_, he⟩ => nomatch he) (fun hb => nomatch hb.2),
        fun _ he => nomatch he⟩
    | some m =>
      have hfirst : first? log r = some m.config := by rw [← hs.config, hr]; rfl
      rw [Registration.run_of_some hr, hfirst, Option.getD_some]
      cases r.isBare <;> cases r.isSame m.config <;> simp
  · obtain ⟨r', result⟩ := p
    have hsome : (first? log r').isSome = true := by
      refine List.find?_isSome.mpr ⟨r', List.mem_map_of_mem hp, ?_⟩
      simp
    rw [← hs.config, Option.isSome_map] at hsome
    obtain ⟨m, hm'⟩ := Option.isSome_iff_exists.mp hsome
    obtain ⟨handler, hown, houtcome⟩ := hs.finish hf hm'
    have hfirst : first? log r' = some m.config := by rw [← hs.config, hm']; rfl
    refine ⟨handler, by rw [hfirst]; exact houtcome, fun r place hr hl w hw fuel req => ?_⟩
    have hslot := hs.handed r place hr
    rw [Registration.stored?_congr hl, hm'] at hslot
    obtain rfl : m.slot = place := Option.some.inj hslot
    exact answer_slot hown hw fuel req

/-- The state after a manual resource was registered, and a dispatcher was referred to. -/
def sharedState : State :=
  let first := ((Registration.manual { root := some "docs" }).run (freshState {})).2
  { first with context.dispatch := first.context.dispatch.reference (some "lang") }

/-- Another manual resource is refused after that, and a bare one stands for the first. -/
def sharedLog : Log := [
  (.manual { root := some "docs" }, .ok 1),
  (.manual { root := some "other" }, .error (.singleton "manual")),
  (.manual {}, .ok 1)]

theorem history_shared : History (freshState {}) sharedLog sharedState := by
  have hfirst := (History.start : History (freshState {}) [] _).register
    (.manual { root := some "docs" })
  have hreferred : History _ _ sharedState := hfirst.other ⟨rfl, rfl, .refl _⟩
  exact (hreferred.register (.manual { root := some "other" })).register (.manual {})

theorem singleton_of_history_shared :
    (∃ e, ((Registration.manual { root := some "else" }).run sharedState).1 = .error e) ∧
      ∃ mount t handler, finish.Gives sharedState mount t ∧
        IsOutcome sharedState (.manual { root := some "docs" }) handler ∧
        ∀ fuel req, World.answer (fuel + 1) (.slot 1) req t.world =
          World.answer fuel handler req t.world := by
  obtain ⟨hnext, hfinished⟩ := singleton_of_history rfl rfl history_shared
  have hok : (finish sharedState).1.toOption.isSome = true := by decide +kernel
  obtain ⟨mount, hmount⟩ := Option.isSome_iff_exists.mp hok
  have hf : finish.Gives sharedState mount (finish sharedState).2 :=
    Prod.ext (eq_ok_of_toOption hmount) rfl
  obtain ⟨handler, houtcome, hanswer⟩ := hfinished _ _ hf _ List.mem_cons_self
  refine ⟨(hnext _).2.1.mpr ⟨by decide +kernel, by decide +kernel⟩, mount, _, handler, hf,
    houtcome, ?_⟩
  exact hanswer _ 1 List.mem_cons_self rfl _ (.refl _)

end Finished

end Assembly

end RequestRouting
