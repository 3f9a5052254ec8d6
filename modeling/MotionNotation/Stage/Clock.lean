import MotionNotation.Scalar

/-!
# Clocks

A clock that stands still until it is set or moved on.
-/

namespace MotionNotation

structure Clock (α : Type) where
  now : α
  deriving DecidableEq, Repr

namespace Clock

variable {α : Type} [Scalar α]

def start : Clock α :=
  ⟨0⟩

def set (_ : Clock α) (now : α) : Clock α :=
  ⟨now⟩

def advance (clock : Clock α) (seconds : α) : Clock α :=
  ⟨clock.now + seconds⟩

end Clock

end MotionNotation
