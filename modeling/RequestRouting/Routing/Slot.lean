/-!
# Slots

A slot stands for a handler before it exists. It's bound once, either owning the handler or just
borrowing it from its owner, and a borrowed handler is lost once its owner is gone.
-/

namespace RequestRouting

/-- A slot for a handler. -/
inductive Slot (η : Type) where
  | unbound
  | owned (handler : η)
  | borrowed (handler : η)
  /-- Bound to a borrowed handler that was lost. -/
  | lost
  deriving Inhabited

namespace Slot

variable {η : Type}

/-- Whether the slot was bound. -/
def isBound : Slot η → Bool
  | unbound => false
  | _ => true

/-- The handler the slot stands for. -/
def get? : Slot η → Option η
  | owned handler | borrowed handler => some handler
  | unbound | lost => none

/-- Binds a slot that isn't bound yet. -/
def bind (handler : η) : Slot η → Slot η
  | unbound => owned handler
  | slot => slot

/-- Binds a slot that isn't bound yet, borrowing the handler. -/
def bindWeak (handler : η) : Slot η → Slot η
  | unbound => borrowed handler
  | slot => slot

/-- The slot after the owner of a borrowed handler is gone. -/
def release : Slot η → Slot η
  | borrowed _ => lost
  | slot => slot

end Slot

end RequestRouting
