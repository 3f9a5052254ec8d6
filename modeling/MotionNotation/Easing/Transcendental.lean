import MotionNotation.Easing.Polynomial

/-!
# Easings on floats

The sine, exponential and circular curves need more than arithmetic and are
defined on floats only.  With them every easing can be evaluated.
-/

namespace MotionNotation.Easing

def pi : Float := 3.14159265358979323846

def sine (direction : Direction) (t : Float) : Float :=
  match direction with
  | .inward => 1 - Float.cos (t * pi / 2)
  | .outward => Float.sin (t * pi / 2)
  | .both => -half * (Float.cos (pi * t) - 1)

def powerOfTwo (exponent : Float) : Float :=
  Float.pow 2 exponent

/-- An exponential does not reach its ends, so they are pinned. -/
def expo (direction : Direction) (t : Float) : Float :=
  match direction with
  | .inward => if t ≤ 0 then 0 else powerOfTwo (10 * (t - 1))
  | .outward => if 1 ≤ t then 1 else 1 - powerOfTwo (-10 * t)
  | .both =>
    if t ≤ 0 then 0
    else if 1 ≤ t then 1
    else
      let s := t * 2
      if s < 1 then half * powerOfTwo (10 * (s - 1))
      else half * (2 - powerOfTwo (-10 * (s - 1)))

/-- The height of the unit circle above `t`, zero outside it. -/
def circleHeight (t : Float) : Float :=
  Float.sqrt (Scalar.clampNonneg (1 - t * t))

def circ (direction : Direction) (t : Float) : Float :=
  match direction with
  | .inward => -(circleHeight t - 1)
  | .outward => circleHeight (t - 1)
  | .both =>
    let s := t * 2
    if s < 1 then -half * (circleHeight s - 1)
    else half * (circleHeight (s - 2) + 1)

def apply (easing : Easing) (t : Float) : Float :=
  match easing with
  | linear => t
  | curved .quad direction => quad direction t
  | curved .cubic direction => cubic direction t
  | curved .quart direction => quart direction t
  | curved .quint direction => quint direction t
  | curved .sine direction => sine direction t
  | curved .expo direction => expo direction t
  | curved .circ direction => circ direction t

theorem apply_of_polynomial {easing : Easing} {curve : Float → Float}
    (h : easing.polynomial? = some curve) (t : Float) : easing.apply t = curve t := by
  revert h
  cases easing with
  | linear => rintro ⟨⟩; rfl
  | curved c d => cases c <;> rintro ⟨⟩ <;> rfl

instance instEasesFloat : Eases Float where
  ease := apply

end MotionNotation.Easing
