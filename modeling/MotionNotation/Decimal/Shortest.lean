import MotionNotation.Decimal.Places

/-!
# Shortest decimals

Every decimal inside the interval of reals that round to a float reads back as
that float.  The shortest of them, and of those the nearest to the float, is its
decimal: the coarsest power of ten whose multiples meet the interval gives the
digits.
-/

namespace MotionNotation.Decimal

structure Numeral where
  digits : Nat
  exponent : Int
  deriving DecidableEq, Repr

/-- The reals that round to a float, in quarters of its last binary place. -/
structure Basin where
  lower : Nat
  centre : Nat
  upper : Nat
  closed : Bool
  unit : Int
  deriving DecidableEq, Repr

namespace Basin

/-- Below a power of two the neighbours lie closer, except at the least
exponent. -/
def ofBinary (value : Binary) : Basin where
  lower :=
    if value.significand = Binary.normalBound ∧ value.exponent ≠ Binary.leastExponent then
      4 * value.significand - 1
    else 4 * value.significand - 2
  centre := 4 * value.significand
  upper := 4 * value.significand + 2
  closed := value.significand % 2 == 0
  unit := value.exponent - 2

def contains (lower upper : Nat) (closed : Bool) (point : Nat) : Bool :=
  if closed then decide (lower ≤ point ∧ point ≤ upper)
  else decide (lower < point ∧ point < upper)

/-- The multiple of `10 ^ exponent` in the basin that is nearest to its centre,
if there is one: only the two neighbours of the centre are candidates. -/
def nearestMultiple (basin : Basin) (tie : Tie) (exponent : Int) : Option Numeral :=
  let unit := Nat.pow 2 basin.unit.toNat * Nat.pow 10 (-exponent).toNat
  let step := Nat.pow 10 exponent.toNat * Nat.pow 2 (-basin.unit).toNat
  let centre := basin.centre * unit
  let below := centre / step
  let inside (multiple : Nat) : Bool :=
    contains (basin.lower * unit) (basin.upper * unit) basin.closed (multiple * step)
  match inside below, inside (below + 1) with
  | true, true =>
    if tie.takesUpper (2 * (centre % step)) step below then some ⟨below + 1, exponent⟩
    else some ⟨below, exponent⟩
  | true, false => some ⟨below, exponent⟩
  | false, true => some ⟨below + 1, exponent⟩
  | false, false => none

end Basin

def Binary.decimalBound (value : Binary) : Int :=
  (value.significand.log2 + value.exponent + 2) * 30103 / 100000 + 1

/-- Seventeen digits are enough for every float; the bound may lie a place or
two too high. -/
def Binary.candidateExponents (value : Binary) : List Int :=
  (List.range 20).map fun (place : Nat) => value.decimalBound - place

def Binary.shortest (value : Binary) (tie : Tie) : Numeral :=
  let basin := Basin.ofBinary value
  (value.candidateExponents.findSome? (basin.nearestMultiple tie)).getD ⟨0, 0⟩

end MotionNotation.Decimal
