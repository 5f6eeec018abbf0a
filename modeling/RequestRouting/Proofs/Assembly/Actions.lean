import RequestRouting.Assembly.Component

/-!
# Assembling, one action at a time

Assembling is a function from a state to a result and another state. The equivalences here say when
each of its actions succeeds, and with what, so a successful run is taken apart action by action.
-/

namespace RequestRouting.Assembly

variable {α β : Type}

/-- An action succeeds in a state, yielding a value and another state. -/
def Gives (x : Assembly α) (s : State) (a : α) (t : State) : Prop :=
  @Eq (Except Error α × State) (x s) (.ok a, t)

variable {x : Assembly α} {f : α → Assembly β} {s t : State} {a : α} {b : β}

/-- Two actions in sequence, whatever the state: if the first one fails, that's it. -/
theorem bind_apply {σ : Type} (x : ExceptT Error (StateM σ) α) (f : α → ExceptT Error (StateM σ) β)
    (s : σ) : (x >>= f) s =
      (x s).1.casesOn (fun e => (.error e, (x s).2)) fun a => f a (x s).2 := by
  change ExceptT.bindCont f (x s).1 (x s).2 = _
  cases (x s).1 <;> rfl

/-- What follows a successful action goes on in the state that the action leads to. -/
theorem bind_apply_of_gives (h : x.Gives s a t) : (x >>= f) s = f a t := by
  rw [bind_apply, show x s = (.ok a, t) from h]

/-- An action yields one value at most, and leads to one state. -/
theorem Gives.unique {a' : α} {t' : State} (h : x.Gives s a t) (h' : x.Gives s a' t') :
    a' = a ∧ t' = t := by
  obtain ⟨ha, ht⟩ := Prod.mk.inj (h'.symm.trans h)
  exact ⟨Except.ok.inj ha, ht⟩

@[simp] theorem gives_bind : (x >>= f).Gives s b t ↔ ∃ a u, x.Gives s a u ∧ (f a).Gives u b t := by
  unfold Gives
  rw [bind_apply]
  generalize x s = p
  obtain ⟨r, u⟩ := p
  cases r with
  | error e =>
    constructor
    · rintro ⟨⟩
    · rintro ⟨a, v, ⟨⟩, -⟩
  | ok a =>
    constructor
    · exact fun h => ⟨a, u, rfl, h⟩
    · rintro ⟨a', v, h, hf⟩
      cases h
      exact hf

@[simp] theorem gives_pure {a' : α} : (pure a : Assembly α).Gives s a' t ↔ a = a' ∧ s = t := by
  constructor
  · rintro ⟨⟩; exact ⟨rfl, rfl⟩
  · rintro ⟨rfl, rfl⟩; rfl

@[simp] theorem gives_map {g : α → β} :
    (g <$> x).Gives s b t ↔ ∃ a, x.Gives s a t ∧ g a = b := by
  rw [map_eq_pure_bind, gives_bind]
  simp only [gives_pure]
  constructor
  · rintro ⟨a, u, ha, rfl, rfl⟩; exact ⟨a, ha, rfl⟩
  · rintro ⟨a, ha, rfl⟩; exact ⟨a, t, ha, rfl, rfl⟩

@[simp] theorem gives_throw {e : Error} : ¬(throw e : Assembly α).Gives s a t := by
  rintro ⟨⟩

@[simp] theorem gives_get {u : State} : (get : Assembly State).Gives s u t ↔ s = u ∧ s = t := by
  constructor
  · rintro ⟨⟩; exact ⟨rfl, rfl⟩
  · rintro ⟨rfl, rfl⟩; rfl

@[simp] theorem gives_modify {f : State → State} {u : PUnit} :
    (modify f : Assembly PUnit).Gives s u t ↔ f s = t := by
  constructor
  · rintro ⟨⟩; rfl
  · rintro rfl; rfl

@[simp] theorem gives_context {c : Context} : context.Gives s c t ↔ s.context = c ∧ s = t := by
  constructor
  · rintro ⟨⟩; exact ⟨rfl, rfl⟩
  · rintro ⟨rfl, rfl⟩; rfl

@[simp] theorem gives_modifyContext {f : Context → Context} {u : Unit} :
    (modifyContext f).Gives s u t ↔ { s with context := f s.context } = t := by
  constructor
  · rintro ⟨⟩; rfl
  · rintro rfl; rfl

@[simp] theorem gives_add {f : World → Nat × World} {place : Nat} :
    (add f).Gives s place t ↔
      (f s.world).1 = place ∧ { s with world := (f s.world).2 } = t := by
  constructor
  · rintro ⟨⟩; exact ⟨rfl, rfl⟩
  · rintro ⟨rfl, rfl⟩; rfl

@[simp] theorem gives_located {uri : String} : (located uri x).Gives s a t ↔ x.Gives s a t := by
  unfold Gives located
  generalize x s = p
  obtain ⟨r, u⟩ := p
  cases r with
  | ok a => exact Iff.rfl
  | error e => cases e <;> exact iff_of_false nofun nofun

theorem gives_withTtl {ttl : Duration} : (withTtl (some ttl) x).Gives s a t ↔
    ∃ u, x.Gives { s with context.chainTtl := some ttl } a u ∧
      t = { u with context.chainTtl := s.context.chainTtl } := by
  have he : withTtl (some ttl) x s = ((x { s with context.chainTtl := some ttl }).1,
      { (x { s with context.chainTtl := some ttl }).2 with
        context.chainTtl := s.context.chainTtl }) := rfl
  unfold Gives
  rw [he]
  constructor
  · intro h
    obtain ⟨h₁, h₂⟩ := Prod.mk.inj h
    exact ⟨_, Prod.ext h₁ rfl, h₂.symm⟩
  · rintro ⟨u, hu, rfl⟩
    rw [hu]

theorem gives_guarded {name uri : String} {x : Assembly Resolved} {r : Resolved} :
    (guarded name uri x).Gives s r t ↔ (uri, name) ∉ s.context.resolving ∧
      ∃ u, x.Gives { s with context.resolving := s.context.resolving ++ [(uri, name)] } r u ∧
        t = { u with context.resolving := s.context.resolving } := by
  have he : guarded name uri x s = if s.context.resolving.contains (uri, name) then
      (.error (.cycle uri), s) else
      ((x { s with context.resolving := s.context.resolving ++ [(uri, name)] }).1,
      { (x { s with context.resolving := s.context.resolving ++ [(uri, name)] }).2 with
        context.resolving := s.context.resolving }) := rfl
  unfold Gives
  rw [he]
  by_cases hc : (uri, name) ∈ s.context.resolving
  · rw [if_pos (List.contains_iff_mem.mpr hc)]
    exact iff_of_false nofun fun h => h.1 hc
  · rw [if_neg (mt List.contains_iff_mem.mp hc)]
    constructor
    · intro h
      obtain ⟨h₁, h₂⟩ := Prod.mk.inj h
      exact ⟨hc, _, Prod.ext h₁ rfl, h₂.symm⟩
    · rintro ⟨-, u, hu, rfl⟩
      rw [hu]

theorem eq_ok_of_toOption {ε α : Type} {x : Except ε α} {a : α} (h : x.toOption = some a) :
    x = .ok a := by
  cases x with
  | error e => cases h
  | ok b => exact congrArg _ (Option.some.inj h)

/-! Finishing an application. -/

/-- What is left to be done once the template resource is built. -/
def finishManual (c : Context) : Assembly (Option (String × Nat)) :=
  match c.manual with
  | none => if c.dispatch.referenced.isEmpty then pure none else throw (.manualRequired c.name)
  | some manual => do
    publishTargets manual.config.mount
    bind manual.slot (← buildManual (manual.config.withTargets c.dispatch.referenced))
    return some (manual.config.mount, manual.slot)

/-- The template resource is built first, if there is one. -/
theorem finish_eq : finish = (do
    let c ← context
    match c.templates with
    | none => finishManual c
    | some templates => do
      bind templates.slot (← buildTemplates templates.config)
      finishManual c) := by
  refine congrArg (context >>= ·) (funext fun c => ?_)
  cases c.templates with
  | none => rfl
  | some templates => rfl

end RequestRouting.Assembly
