/-!
# Easings

An easing remaps progress.  Besides the linear one there are seven curves, each
in three directions; a notation selects an easing by its place in `Easing.all`.
-/

namespace MotionNotation

inductive Curve where
  | quad
  | cubic
  | quart
  | quint
  | sine
  | expo
  | circ
  deriving DecidableEq, Repr

inductive Direction where
  | inward
  | outward
  | both
  deriving DecidableEq, Repr

inductive Easing where
  | linear
  | curved (curve : Curve) (direction : Direction)
  deriving DecidableEq, Repr

namespace Curve

def all : List Curve :=
  [.quad, .cubic, .quart, .quint, .sine, .expo, .circ]

def name : Curve → String
  | quad => "quad"
  | cubic => "cubic"
  | quart => "quart"
  | quint => "quint"
  | sine => "sine"
  | expo => "expo"
  | circ => "circ"

def capitalName : Curve → String
  | quad => "Quad"
  | cubic => "Cubic"
  | quart => "Quart"
  | quint => "Quint"
  | sine => "Sine"
  | expo => "Expo"
  | circ => "Circ"

end Curve

namespace Direction

def all : List Direction :=
  [.inward, .outward, .both]

def phrase : Direction → String
  | inward => "in"
  | outward => "out"
  | both => "in/out"

def keyStem : Direction → String
  | inward => "in"
  | outward => "out"
  | both => "inOut"

end Direction

namespace Easing

def all : List Easing :=
  linear :: Curve.all.flatMap fun curve => Direction.all.map fun direction => curved curve direction

@[simp] theorem all_length : all.length = 22 := rfl

def atPlace? (place : Nat) : Option Easing :=
  all[place]?

theorem atPlace?_isSome (place : Nat) : (atPlace? place).isSome ↔ place < 22 := by
  simp [atPlace?]

theorem mem_all (easing : Easing) : easing ∈ all := by
  rcases easing with _ | ⟨curve, direction⟩
  · exact List.mem_cons_self
  · cases curve <;> cases direction <;> decide

def standard : Easing :=
  curved .quad .both

def phrase : Easing → String
  | linear => "ease linear"
  | curved curve direction => "ease " ++ direction.phrase ++ " " ++ curve.name

def key : Easing → String
  | linear => "linear"
  | curved curve direction => direction.keyStem ++ curve.capitalName

end Easing

class Eases (α : Type) where
  ease : Easing → α → α

end MotionNotation
