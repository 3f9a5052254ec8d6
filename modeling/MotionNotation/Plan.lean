import MotionNotation.Action.Grid

/-!
# Plans

How long each pipe of a grid takes, and how often it runs.
-/

namespace MotionNotation

inductive Repetition where
  | finite (count : Nat)
  | infinite
  deriving DecidableEq, Repr

namespace Repetition

def once : Repetition :=
  finite 1

def maxCount : Nat := 4294967295

variable {α : Type} [Scalar α]

/-- A negative number asks for no end, and anything up to one for a single run.
The count is the whole part of any other number; what is not below the largest
count is the largest count. -/
def ofValue (value : α) : Repetition :=
  if value < 0 then infinite
  else if value ≤ 1 then once
  else if value < Scalar.ofNat maxCount then finite (Scalar.wholePart value)
  else finite maxCount

def repeats : Repetition → Bool
  | finite count => count != 1
  | infinite => true

end Repetition

structure PipePlan (α : Type) where
  index : Nat
  duration : α
  repetition : Repetition
  mode : LoopMode
  deriving DecidableEq, Repr

namespace PipePlan

variable {α : Type} [Scalar α]

def isRelative (plan : PipePlan α) : Bool :=
  plan.mode == .relative

def loopRequests (actions : List (Action α)) : List (α × LoopMode) :=
  actions.filterMap fun action => action.operator.loopMode?.map fun mode => (action.origin, mode)

def durationRequests (actions : List (Action α)) : List α :=
  (actions.filter (·.operator.isDuration)).map (·.origin)

/-- The last duration and the last loop operator of a pipe count. -/
def ofActions (config : Config α) (index : Nat) (actions : List (Action α)) : PipePlan α where
  index := index
  duration := (durationRequests actions).getLastD config.defaultDuration * config.timeScale
  repetition := ((loopRequests actions).getLast?.map fun request =>
    Repetition.ofValue request.1).getD .once
  mode := ((loopRequests actions).getLast?.map Prod.snd).getD .absolute

end PipePlan

structure Plan (α : Type) where
  pipes : List (PipePlan α)
  deriving DecidableEq, Repr

namespace Plan

variable {α : Type} [Scalar α]

def ofGrid (config : Config α) (grid : Grid α) : Plan α :=
  ⟨grid.activePipes.map fun entry => PipePlan.ofActions config entry.1 entry.2⟩

def isEmpty (plan : Plan α) : Bool :=
  plan.pipes.isEmpty

/-- Adds up the seconds of pipes that run one after the other; one without end
has no sum. -/
def totalFrom (elapsed : α) : List (PipePlan α) → Option α
  | [] => some elapsed
  | plan :: rest =>
    match plan.repetition with
    | .finite count => totalFrom (elapsed + plan.duration * Scalar.ofNat count) rest
    | .infinite => none

def totalDuration (plan : Plan α) : Option α :=
  totalFrom 0 plan.pipes

end Plan

end MotionNotation
