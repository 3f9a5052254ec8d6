import MotionNotation.Plan

/-!
# Timers

A timer follows one activation of a pipe through all its runs.  It is told the
time and never asks for it; no order of the times is assumed.
-/

namespace MotionNotation

namespace Timer

inductive State where
  | running
  | completed
  deriving DecidableEq, Repr

inductive Tick (α : Type) where
  | progress (value : α)
  | looped
  | completed
  | idle
  deriving DecidableEq, Repr

end Timer

structure Timer (α : Type) where
  begins : α
  ends : α
  duration : α
  /-- The runs that are left, the current one included. -/
  remaining : Repetition
  state : Timer.State
  deriving DecidableEq, Repr

namespace Timer

variable {α : Type} [Scalar α]

def start (now duration : α) (repetition : Repetition) : Timer α :=
  let length := Scalar.clampNonneg duration
  ⟨now, now + length, length, repetition, .running⟩

/-- The part of the current run that has passed; a run of no length has passed
altogether. -/
def progress (timer : Timer α) (now : α) : α :=
  if timer.ends == timer.begins then 1
  else Scalar.clampNonneg ((now - timer.begins) / (timer.ends - timer.begins))

def restart (timer : Timer α) (now : α) : Timer α :=
  { timer with begins := now, ends := now + timer.duration }

def endRun (timer : Timer α) (now : α) : Tick α × Timer α :=
  match timer.remaining with
  | .infinite => (.looped, timer.restart now)
  | .finite count =>
    if 1 < count then
      (.looped, { timer with remaining := .finite (count - 1) }.restart now)
    else (.completed, { timer with state := .completed })

def advance (timer : Timer α) (now : α) : Tick α × Timer α :=
  match timer.state with
  | .completed => (.idle, timer)
  | .running =>
    let progress := timer.progress now
    if progress < 1 then (.progress progress, timer) else timer.endRun now

theorem advance_of_completed {timer : Timer α} (h : timer.state = .completed) (now : α) :
    timer.advance now = (.idle, timer) := by
  simp [advance, h]

theorem advance_of_progress {timer next : Timer α} {now value : α}
    (h : timer.advance now = (.progress value, next)) : next = timer := by
  unfold advance endRun at h
  split at h
  · cases h
  · dsimp only at h
    split at h
    · cases h
      rfl
    · split at h
      · cases h
      · split at h <;> cases h

end Timer

end MotionNotation
