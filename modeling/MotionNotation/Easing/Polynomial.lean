import MotionNotation.Easing.Basic
import MotionNotation.Scalar

/-!
# Polynomial easings

The linear easing and the quad, cubic, quart and quint curves over any scalar.
The order of the operations is part of each definition, since floats round
after each of them.
-/

namespace MotionNotation.Easing

variable {α : Type} [Scalar α]

def half : α := 1 / 2

def quad (direction : Direction) (t : α) : α :=
  match direction with
  | .inward => t * t
  | .outward => -t * (t - 2)
  | .both =>
    let s := t * 2
    if s < 1 then half * s * s
    else
      let r := s - 1;
      -half * (r * (r - 2) - 1)

def cubic (direction : Direction) (t : α) : α :=
  match direction with
  | .inward => t * t * t
  | .outward =>
    let r := t - 1
    r * r * r + 1
  | .both =>
    let s := t * 2
    if s < 1 then half * s * s * s
    else
      let r := s - 2
      half * (r * r * r + 2)

def quart (direction : Direction) (t : α) : α :=
  match direction with
  | .inward => t * t * t * t
  | .outward =>
    let r := t - 1;
    -(r * r * r * r - 1)
  | .both =>
    let s := t * 2
    if s < 1 then half * s * s * s * s
    else
      let r := s - 2;
      -half * (r * r * r * r - 2)

def quint (direction : Direction) (t : α) : α :=
  match direction with
  | .inward => t * t * t * t * t
  | .outward =>
    let r := t - 1
    r * r * r * r * r + 1
  | .both =>
    let s := t * 2
    if s < 1 then half * s * s * s * s * s
    else
      let r := s - 2
      half * (r * r * r * r * r + 2)

/-- The function of an easing that needs nothing but arithmetic. -/
def polynomial? : Easing → Option (α → α)
  | linear => some id
  | curved .quad direction => some (quad direction)
  | curved .cubic direction => some (cubic direction)
  | curved .quart direction => some (quart direction)
  | curved .quint direction => some (quint direction)
  | curved _ _ => none

end MotionNotation.Easing
