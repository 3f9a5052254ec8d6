/-!
# Binary numbers

A machine float is a sign, which zero has too, a natural significand and a power
of two, or one of the values that stand for no number.  Text and rounding are
computed from this form in exact arithmetic.
-/

namespace MotionNotation.Decimal

structure Binary where
  negative : Bool
  significand : Nat
  exponent : Int
  deriving DecidableEq, Repr

inductive Reading where
  | nan
  | infinite (negative : Bool)
  | finite (value : Binary)
  deriving DecidableEq, Repr

namespace Binary

def normalBound : Nat := 4503599627370496

def leastExponent : Int := -1074

def numerator (value : Binary) : Nat :=
  value.significand * Nat.pow 2 value.exponent.toNat

def denominator (value : Binary) : Nat :=
  Nat.pow 2 (-value.exponent).toNat

theorem denominator_pos (value : Binary) : 0 < value.denominator :=
  Nat.two_pow_pos _

end Binary

namespace Reading

/-- Splits sixty-four bits into one of sign, eleven of exponent and fifty-two
of fraction. -/
def ofBits (bits : Nat) : Reading :=
  let negative := bits / (2048 * Binary.normalBound) % 2 == 1
  let exponent := bits / Binary.normalBound % 2048
  let fraction := bits % Binary.normalBound
  if exponent = 2047 then
    if fraction = 0 then .infinite negative else .nan
  else if exponent = 0 then
    .finite ⟨negative, fraction, Binary.leastExponent⟩
  else
    .finite ⟨negative, Binary.normalBound + fraction,
      Binary.leastExponent + (exponent : Int) - 1⟩

def ofFloat (x : Float) : Reading :=
  ofBits x.toBits.toNat

end Reading

end MotionNotation.Decimal
