import MotionNotation.Scalar

/-!
# Targets

A target is what a notation moves: eight channels that operators write, and
measurements that they only read.
-/

namespace MotionNotation

inductive Axis where
  | x
  | y
  | z
  deriving DecidableEq, Repr

structure Triple (α : Type) where
  x : α
  y : α
  z : α
  deriving DecidableEq, Repr

namespace Triple

variable {α : Type}

def get (triple : Triple α) : Axis → α
  | .x => triple.x
  | .y => triple.y
  | .z => triple.z

def set (triple : Triple α) (axis : Axis) (value : α) : Triple α :=
  match axis with
  | .x => { triple with x := value }
  | .y => { triple with y := value }
  | .z => { triple with z := value }

@[simp] theorem get_set (triple : Triple α) (axis other : Axis) (value : α) :
    (triple.set axis value).get other = if other = axis then value else triple.get other := by
  cases axis <;> cases other <;> rfl

def splat (value : α) : Triple α :=
  ⟨value, value, value⟩

end Triple

/-- What an action can change of a target.  Rotations are in degrees. -/
inductive Channel where
  | translation (axis : Axis)
  | rotation (axis : Axis)
  | scale
  | alpha
  deriving DecidableEq, Repr

namespace Channel

def all : List Channel :=
  [.translation .x, .translation .y, .translation .z,
    .rotation .x, .rotation .y, .rotation .z, .scale, .alpha]

theorem mem_all (channel : Channel) : channel ∈ all := by
  rcases channel with axis | axis | _ | _ <;> first | decide | cases axis <;> decide

def name : Channel → String
  | translation .x => "translationX"
  | translation .y => "translationY"
  | translation .z => "translationZ"
  | rotation .x => "rotationX"
  | rotation .y => "rotationY"
  | rotation .z => "rotationZ"
  | scale => "scale"
  | alpha => "alpha"

def ofName? (name : String) : Option Channel :=
  all.find? (·.name == name)

end Channel

structure Target (α : Type) where
  translation : Triple α
  rotation : Triple α
  scale : α
  alpha : α
  width : α
  height : α
  siblingIndex : Nat
  deriving DecidableEq, Repr

structure Write (α : Type) where
  channel : Channel
  value : α
  deriving DecidableEq, Repr

namespace Target

variable {α : Type}

def get (target : Target α) : Channel → α
  | .translation axis => target.translation.get axis
  | .rotation axis => target.rotation.get axis
  | .scale => target.scale
  | .alpha => target.alpha

def set (target : Target α) (channel : Channel) (value : α) : Target α :=
  match channel with
  | .translation axis => { target with translation := target.translation.set axis value }
  | .rotation axis => { target with rotation := target.rotation.set axis value }
  | .scale => { target with scale := value }
  | .alpha => { target with alpha := value }

@[simp] theorem get_set (target : Target α) (channel other : Channel) (value : α) :
    (target.set channel value).get other =
      if other = channel then value else target.get other := by
  cases channel <;> cases other <;> simp [get, set]

@[simp] theorem set_width (target : Target α) (channel : Channel) (value : α) :
    (target.set channel value).width = target.width := by
  cases channel <;> rfl

@[simp] theorem set_height (target : Target α) (channel : Channel) (value : α) :
    (target.set channel value).height = target.height := by
  cases channel <;> rfl

@[simp] theorem set_siblingIndex (target : Target α) (channel : Channel) (value : α) :
    (target.set channel value).siblingIndex = target.siblingIndex := by
  cases channel <;> rfl

def writeAll (target : Target α) (writes : List (Write α)) : Target α :=
  writes.foldl (fun current write => current.set write.channel write.value) target

@[simp] theorem writeAll_nil (target : Target α) : target.writeAll [] = target := rfl

@[simp] theorem writeAll_cons (target : Target α) (write : Write α) (rest : List (Write α)) :
    target.writeAll (write :: rest) =
      (target.set write.channel write.value).writeAll rest := rfl

theorem writeAll_append (target : Target α) (first second : List (Write α)) :
    target.writeAll (first ++ second) = (target.writeAll first).writeAll second :=
  List.foldl_append

/-- Equality by the comparison of the scalars, in which a number may differ from
itself and zero has no sign. -/
def sameAs [BEq α] (first second : Target α) : Bool :=
  (Channel.all.all fun channel => first.get channel == second.get channel) &&
    first.width == second.width && first.height == second.height &&
    first.siblingIndex == second.siblingIndex

variable [Scalar α]

def standard : Target α where
  translation := .splat 0
  rotation := .splat 0
  scale := 1
  alpha := 1
  width := 0
  height := 0
  siblingIndex := 0

/-- Puts every channel to rest.  Measurements stay. -/
def reset (target : Target α) : Target α :=
  { target with
    translation := .splat 0
    rotation := .splat 0
    scale := 1
    alpha := 1 }

end Target

end MotionNotation
