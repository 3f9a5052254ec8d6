import MotionNotation.Decimal.Layout
import MotionNotation.Easing.Basic
import MotionNotation.Scalar

/-!
# Configuration

What a notation is resolved against besides its target.
-/

namespace MotionNotation

structure Config (α : Type) where
  defaultDuration : α
  pauseFactor : α
  timeScale : α
  maxPipes : Nat
  maxActions : Nat
  /-- Place of the easing that applies until one is selected. -/
  defaultEasing : Nat
  deriving DecidableEq, Repr

namespace Config

variable {α : Type} [Scalar α]

def standard : Config α where
  defaultDuration := 87 / 100
  pauseFactor := 26 / 100
  timeScale := 1
  maxPipes := 40
  maxActions := 40
  defaultEasing := 3

/-- Seconds that a pause takes before the time scale applies. -/
def pauseDuration (config : Config α) : α :=
  config.defaultDuration * config.pauseFactor

def initialEasing (config : Config α) : Easing :=
  (Easing.atPlace? config.defaultEasing).getD .standard

inductive Fault (α : Type) where
  | defaultDuration (got : α)
  | pauseFactor (got : α)
  | timeScale (got : α)
  | noCapacity
  | defaultEasing (got : Nat)
  deriving DecidableEq, Repr

namespace Fault

def cause : Fault Float → String
  | defaultDuration got =>
    "default_duration must be finite and >= 0, got " ++ Decimal.plain got
  | pauseFactor got => "pause_factor must be finite and >= 0, got " ++ Decimal.plain got
  | timeScale got => "time_scale must be finite and > 0, got " ++ Decimal.plain got
  | noCapacity => "grid capacity must be at least 1x1"
  | defaultEasing got =>
    "default_easing " ++ got.repr ++ " is out of range (table has " ++
      Easing.all.length.repr ++ " entries)"

def message (fault : Fault Float) : String :=
  "invalid config: " ++ fault.cause

end Fault

def fault? (config : Config α) : Option (Fault α) :=
  if !Scalar.isFinite config.defaultDuration || decide (config.defaultDuration < 0) then
    some (.defaultDuration config.defaultDuration)
  else if !Scalar.isFinite config.pauseFactor || decide (config.pauseFactor < 0) then
    some (.pauseFactor config.pauseFactor)
  else if !Scalar.isFinite config.timeScale || decide (config.timeScale ≤ 0) then
    some (.timeScale config.timeScale)
  else if config.maxPipes = 0 ∨ config.maxActions = 0 then
    some .noCapacity
  else if Easing.all.length ≤ config.defaultEasing then
    some (.defaultEasing config.defaultEasing)
  else none

def validate (config : Config α) : Except (Fault α) (Config α) :=
  match config.fault? with
  | some fault => .error fault
  | none => .ok config

theorem validate_eq_ok_iff (config result : Config α) :
    config.validate = .ok result ↔ config.fault? = none ∧ config = result := by
  unfold validate
  cases config.fault? <;> simp

end Config

end MotionNotation
