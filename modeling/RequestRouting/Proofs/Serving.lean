import RequestRouting.Serving.Run

/-!
# Serving, one action at a time

Serving a request is a function from a world to an answer and another world, unless fuel runs out.
The equations here say what each of its actions makes of a world, so later proofs go through the
actions in order and never open the monad.
-/

namespace RequestRouting.Serving

variable {α β : Type}

@[simp] theorem bind_apply (x : Serving α) (f : α → Serving β) (w : World) :
    (x >>= f) w = (x w).bind fun p => f p.1 p.2 := rfl

@[simp] theorem map_apply (f : α → β) (x : Serving α) (w : World) :
    (f <$> x) w = (x w).map fun p => (f p.1, p.2) := by
  cases h : x w <;> simp [Functor.map, StateT.map, h]

@[simp] theorem pure_apply (a : α) (w : World) : (pure a : Serving α) w = some (a, w) := rfl

@[simp] theorem get_apply (w : World) : (get : Serving World) w = some (w, w) := rfl

@[simp] theorem set_apply (w' w : World) : (set w' : Serving PUnit) w = some (⟨⟩, w') := rfl

@[simp] theorem modify_apply (f : World → World) (w : World) :
    (modify f : Serving PUnit) w = some (⟨⟩, f w) := rfl

/-- What the chain at a place remembers. -/
def memory (w : World) (place : Nat) : Chain.Cache := w.chains.getD place {}

theorem memory_sleep (w : World) (span : Duration) (place : Nat) :
    memory (w.sleep span) place = memory w place := by
  simp only [memory, World.sleep]

@[simp] theorem chainAccess_now (place : Nat) (w : World) :
    (chainAccess place).now w = some (w.now, w) := rfl

@[simp] theorem chainAccess_read (place : Nat) (w : World) :
    (chainAccess place).read w = some (memory w place, w) := rfl

@[simp] theorem chainAccess_update (place : Nat) (change : Chain.Cache → Chain.Cache) (w : World) :
    (chainAccess place).update change w =
      some (⟨⟩, { w with chains := w.chains.modify place change }) := rfl

/-- A change of what a chain remembers does nothing where there is no chain. -/
theorem memory_modify (w : World) (place : Nat) (change : Chain.Cache → Chain.Cache) :
    memory { w with chains := w.chains.modify place change } place = change (memory w place) ∨
      memory { w with chains := w.chains.modify place change } place = memory w place := by
  simp only [memory, Array.getD_eq_getD_getElem?, Array.getElem?_modify, if_pos]
  cases w.chains[place]? with
  | none => right; rfl
  | some c => left; rfl

/-- A change of what a chain remembers does nothing to the other ones. -/
theorem memory_modify_of_ne (w : World) {place place' : Nat} (h : place ≠ place')
    (change : Chain.Cache → Chain.Cache) :
    memory { w with chains := w.chains.modify place change } place' = memory w place' := by
  simp only [memory, Array.getD_eq_getD_getElem?, Array.getElem?_modify, if_neg h]

end RequestRouting.Serving

/-- A jump leads to the handler at its target. -/
theorem RequestRouting.World.jump_succ (fuel : Nat) (target : Target) (req : Request) (w : World) :
    jump (fuel + 1) target req w =
      match w.handler? target with
      | some handler => handler.run (jump fuel) req w
      | none => some (.ofStatus .notFound, w) := by
  simp only [jump, Serving.bind_apply, Serving.get_apply, Option.bind_some]
  cases w.handler? target <;> rfl
