import MotionNotation.Decimal.Binary

/-!
# Rounding to fixed places

`roundDiv` rounds a quotient of naturals to the nearest natural; the number of
decimal places of a text and the whole number nearest to a float are both
instances of it.  `roundDiv_lower` and `roundDiv_upper` say that the result is
within half a unit.
-/

namespace MotionNotation.Decimal

inductive Tie where
  | up
  | even
  deriving DecidableEq, Repr

/-- Whether the upper neighbour is taken, given twice the distance from the
lower one, the distance of the two and the lower one itself. -/
def Tie.takesUpper (tie : Tie) (twiceBelow gap lower : Nat) : Bool :=
  if twiceBelow = gap then
    match tie with
    | .up => true
    | .even => lower % 2 == 1
  else decide (gap < twiceBelow)

def roundDiv (tie : Tie) (numerator denominator : Nat) : Nat :=
  let lower := numerator / denominator
  if tie.takesUpper (2 * (numerator % denominator)) denominator lower then lower + 1 else lower

theorem Tie.le_of_takesUpper {tie : Tie} {twiceBelow gap lower : Nat}
    (h : tie.takesUpper twiceBelow gap lower = true) : gap ≤ twiceBelow := by
  unfold Tie.takesUpper at h
  split at h
  · omega
  · exact Nat.le_of_lt (of_decide_eq_true h)

theorem Tie.le_of_not_takesUpper {tie : Tie} {twiceBelow gap lower : Nat}
    (h : tie.takesUpper twiceBelow gap lower = false) : twiceBelow ≤ gap := by
  unfold Tie.takesUpper at h
  split at h
  · omega
  · exact Nat.le_of_not_lt (of_decide_eq_false h)

theorem roundDiv_lower (tie : Tie) (numerator denominator : Nat) :
    2 * denominator * roundDiv tie numerator denominator ≤ 2 * numerator + denominator := by
  have split := Nat.div_add_mod numerator denominator
  have expand : 2 * denominator * (numerator / denominator) =
      2 * (denominator * (numerator / denominator)) := Nat.mul_assoc ..
  unfold roundDiv
  dsimp only
  split
  · rename_i h
    have bound := Tie.le_of_takesUpper h
    rw [Nat.mul_add, expand]
    omega
  · rw [expand]
    omega

theorem roundDiv_upper (tie : Tie) (numerator denominator : Nat) (pos : 0 < denominator) :
    2 * numerator ≤ 2 * denominator * roundDiv tie numerator denominator + denominator := by
  have split := Nat.div_add_mod numerator denominator
  have small := Nat.mod_lt numerator pos
  have expand : 2 * denominator * (numerator / denominator) =
      2 * (denominator * (numerator / denominator)) := Nat.mul_assoc ..
  unfold roundDiv
  dsimp only
  split
  · rw [Nat.mul_add, expand]
    omega
  · rename_i h
    have bound := Tie.le_of_not_takesUpper (Bool.eq_false_iff.mpr h)
    rw [expand]
    omega

/-! ## The nearest whole number -/

def Binary.nearestNat (value : Binary) : Nat :=
  roundDiv .up value.numerator value.denominator

/-- The whole number nearest to a float, halves going away from zero.  What is
whole already, or no number, stays. -/
def nearestWhole (x : Float) : Float :=
  match Reading.ofFloat x with
  | .finite value =>
    if 0 ≤ value.exponent then x
    else if value.negative then -Float.ofNat value.nearestNat
    else Float.ofNat value.nearestNat
  | _ => x

/-! ## Fixed places -/

def paddedDigits : Nat → Nat → List Char
  | 0, _ => []
  | width + 1, n => paddedDigits width (n / 10) ++ [Nat.digitChar (n % 10)]

def Binary.fixedPlaces (value : Binary) (places : Nat) : String :=
  let unit := Nat.pow 10 places
  let scaled := roundDiv .even (value.numerator * unit) value.denominator
  let whole := (scaled / unit).repr
  let text := whole ++ "." ++ String.ofList (paddedDigits places scaled)
  if value.negative then "-" ++ text else text

def fixedPlaces (x : Float) (places : Nat) : String :=
  match Reading.ofFloat x with
  | .nan => "NaN"
  | .infinite negative => if negative then "-inf" else "inf"
  | .finite value => value.fixedPlaces places

end MotionNotation.Decimal
