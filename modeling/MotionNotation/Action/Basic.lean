import MotionNotation.Operator

/-!
# Actions

One occurrence of an operator, resolved against a target: its value, and the
two endpoints between which it moves.
-/

namespace MotionNotation

structure Action (α : Type) where
  operator : Operator
  inverse : Bool
  literal : Option α
  value : α
  origin : α
  goal : α
  easing : Easing
  deriving DecidableEq, Repr

namespace Action

variable {α : Type} [Scalar α]

/-- Reads the endpoints off the live target again. -/
def rebase (action : Action α) (target : Target α) : Action α :=
  let ends := action.operator.endpoints action.inverse action.value target
  { action with origin := ends.1, goal := ends.2 }

/-- An operator in a notation: a missing number is the operator's default. -/
def resolve (operator : Operator) (inverse : Bool) (literal : Option α) (easing : Easing)
    (target : Target α) (config : Config α) : Action α :=
  let value := literal.getD (operator.defaultValue target config)
  let ends := operator.endpoints inverse value target
  { operator, inverse, literal, value, origin := ends.1, goal := ends.2, easing }

def pause (seconds : α) (easing : Easing) : Action α where
  operator := .duration
  inverse := false
  literal := some seconds
  value := seconds
  origin := seconds
  goal := seconds
  easing := easing

def write? [Eases α] (action : Action α) (progress : α) : Option (Write α) :=
  action.operator.channel?.map fun channel =>
    ⟨channel, Scalar.lerp action.origin action.goal (Eases.ease action.easing progress)⟩

def perform [Eases α] (action : Action α) (target : Target α) (progress : α) : Target α :=
  target.writeAll (action.write? progress).toList

def writes [Eases α] (actions : List (Action α)) (progress : α) : List (Write α) :=
  actions.filterMap (·.write? progress)

@[simp] theorem rebase_operator (action : Action α) (target : Target α) :
    (action.rebase target).operator = action.operator := rfl

@[simp] theorem rebase_rebase (action : Action α) (first second : Target α) :
    (action.rebase first).rebase second = action.rebase second := rfl

end Action

end MotionNotation
