/-!
# Scalars

The arithmetic that positions, times and progress are computed in.  Machine
floats run the programs; exact rationals are a second reading of the same
definitions, in which no operation rounds.
-/

namespace MotionNotation

/-- Numbers with a sign, a division and an order.  No law is assumed: a float
need not even equal itself. -/
class Scalar (α : Type) extends Add α, Sub α, Mul α, Div α, Neg α, LT α, LE α, BEq α where
  decidableLT : DecidableLT α
  decidableLE : DecidableLE α
  ofNat : Nat → α
  wholePart : α → Nat
  isFinite : α → Bool

attribute [reducible, instance] Scalar.decidableLT Scalar.decidableLE

instance (priority := low) instOfNatScalar {α : Type} [Scalar α] (n : Nat) : OfNat α n where
  ofNat := Scalar.ofNat n

instance instScalarFloat : Scalar Float where
  decidableLT := inferInstance
  decidableLE := inferInstance
  ofNat := Float.ofNat
  wholePart x := x.toUInt64.toNat
  isFinite := Float.isFinite

instance instScalarRat : Scalar Rat where
  decidableLT := inferInstance
  decidableLE := inferInstance
  ofNat n := (n : Rat)
  wholePart x := x.floor.toNat
  isFinite _ := true

namespace Scalar

variable {α : Type} [Scalar α]

/-- The number itself if it is positive, else zero.  What is not comparable
counts as zero. -/
def clampNonneg (x : α) : α :=
  if 0 < x then x else 0

def lerp (origin goal progress : α) : α :=
  origin + (goal - origin) * progress

end Scalar

end MotionNotation
