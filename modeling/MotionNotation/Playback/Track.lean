import MotionNotation.Notation.Segment
import MotionNotation.Playback.Beat

/-!
# Tracks

A track runs the pipes of one group one after the other.  When a pipe completes
the next one starts and advances at the same time, so a single update may pass
through several pipes.
-/

namespace MotionNotation

structure Step (α : Type) where
  plan : PipePlan α
  actions : List (Action α)
  deriving DecidableEq, Repr

namespace Step

variable {α : Type} [Scalar α]

def rebase (step : Step α) (target : Target α) : Step α :=
  { step with actions := step.actions.map (·.rebase target) }

def writes [Eases α] (step : Step α) (progress : α) : List (Write α) :=
  Action.writes step.actions progress

def arm (step : Step α) (now : α) : Timer α :=
  Timer.start now step.plan.duration step.plan.repetition

end Step

def Segment.steps {α : Type} (segment : Segment α) : List (Step α) :=
  segment.plan.pipes.map fun plan => ⟨plan, segment.grid.pipe plan.index⟩

namespace Track

inductive Phase (α : Type) where
  /-- There is nothing to run, and no update has noticed it. -/
  | vacant
  | playing (step : Step α) (timer : Timer α) (upcoming : List (Step α))
  | finished
  deriving DecidableEq, Repr

end Track

structure Track (α : Type) where
  phase : Track.Phase α
  signal : Option Nat
  deriving DecidableEq, Repr

namespace Track

variable {α : Type}

structure Turn (α : Type) where
  track : Track α
  target : Target α
  beats : List (Beat α)
  deriving DecidableEq, Repr

def isFinished (track : Track α) : Bool :=
  match track.phase with
  | .finished => true
  | .vacant | .playing .. => false

def Turn.after (turn : Turn α) (beats : List (Beat α)) : Turn α :=
  { turn with beats := beats ++ turn.beats }

def finishBeats (signal : Option Nat) : List (Beat α) :=
  .groupCompleted :: (signal.map .signalled).toList

def finish (signal : Option Nat) (target : Target α) : Turn α :=
  ⟨⟨.finished, none⟩, target, finishBeats signal⟩

@[simp] theorem events_finishBeats (signal : Option Nat) :
    Beat.events (finishBeats signal : List (Beat α)) = [.groupCompleted] := by
  cases signal <;> rfl

@[simp] theorem signals_finishBeats (signal : Option Nat) :
    Beat.signals (finishBeats signal : List (Beat α)) = signal.toList := by
  cases signal <;> rfl

@[simp] theorem finish_isFinished (signal : Option Nat) (target : Target α) :
    (finish signal target).track.isFinished = true := rfl

@[simp] theorem after_track (turn : Turn α) (beats : List (Beat α)) :
    (turn.after beats).track = turn.track := rfl

@[simp] theorem after_target (turn : Turn α) (beats : List (Beat α)) :
    (turn.after beats).target = turn.target := rfl

@[simp] theorem after_beats (turn : Turn α) (beats : List (Beat α)) :
    (turn.after beats).beats = beats ++ turn.beats := rfl

variable [Scalar α] [Eases α]

def enter (step : Step α) (target : Target α) : Step α × Target α × List (Beat α) :=
  let based := step.rebase target
  let writes := based.writes 0
  (based, target.writeAll writes, writes.map .wrote ++ [.started step.plan])

def start (steps : List (Step α)) (signal : Option Nat) (target : Target α) (now : α) : Turn α :=
  match steps with
  | [] => ⟨⟨.vacant, signal⟩, target, []⟩
  | first :: upcoming =>
    let (step, target, beats) := enter first target
    ⟨⟨.playing step (step.arm now) upcoming, signal⟩, target, beats⟩

structure Stride (α : Type) where
  step : Step α
  timer : Timer α
  target : Target α
  beats : List (Beat α)
  passed : Bool
  deriving DecidableEq, Repr

/-- The end of a run of a step that has another one.  A relative step is based
on where it has arrived. -/
def loop (step : Step α) (timer : Timer α) (target : Target α) : Stride α :=
  let last := step.writes 1
  let arrived := target.writeAll last
  let based := if step.plan.isRelative then step.rebase arrived else step
  let first := based.writes 0
  ⟨based, timer, arrived.writeAll first,
    (last ++ first).map .wrote ++ [.looped step.plan.index], false⟩

def pass (step : Step α) (timer : Timer α) (target : Target α) : Stride α :=
  let last := step.writes 1
  ⟨step, timer, target.writeAll last, last.map .wrote ++ [.completed step.plan.index], true⟩

def stride (step : Step α) (timer : Timer α) (target : Target α) (now : α) : Stride α :=
  match timer.advance now with
  | (.progress progress, timer) =>
    let writes := step.writes progress
    ⟨step, timer, target.writeAll writes,
      .progressed step.plan.index progress :: writes.map .wrote, false⟩
  | (.looped, timer) => loop step timer target
  | (.completed, timer) | (.idle, timer) => pass step timer target

def Stride.stay (stride : Stride α) (upcoming : List (Step α)) (signal : Option Nat) : Turn α :=
  ⟨⟨.playing stride.step stride.timer upcoming, signal⟩, stride.target, stride.beats⟩

omit [Scalar α] [Eases α] in
@[simp] theorem stay_isFinished (stride : Stride α) (upcoming : List (Step α))
    (signal : Option Nat) : (stride.stay upcoming signal).track.isFinished = false := rfl

omit [Scalar α] [Eases α] in
@[simp] theorem stay_beats (stride : Stride α) (upcoming : List (Step α))
    (signal : Option Nat) : (stride.stay upcoming signal).beats = stride.beats := rfl

/-- Plays on: the current step first, then the upcoming ones as long as each of
them completes at once. -/
def play (signal : Option Nat) (step : Step α) (timer : Timer α) (target : Target α) (now : α) :
    List (Step α) → Turn α
  | [] =>
    let current := stride step timer target now
    if current.passed then (finish signal current.target).after current.beats
    else current.stay [] signal
  | next :: rest =>
    let current := stride step timer target now
    if current.passed then
      let (entered, target, beats) := enter next current.target
      (play signal entered (entered.arm now) target now rest).after (current.beats ++ beats)
    else current.stay (next :: rest) signal

def update (track : Track α) (target : Target α) (now : α) : Turn α :=
  match track.phase with
  | .finished => ⟨track, target, []⟩
  | .vacant => finish track.signal target
  | .playing step timer upcoming => play track.signal step timer target now upcoming

theorem update_of_isFinished {track : Track α} (h : track.isFinished = true) (target : Target α)
    (now : α) : track.update target now = ⟨track, target, []⟩ := by
  obtain ⟨phase, signal⟩ := track
  cases phase <;> simp_all [isFinished, update]

end Track

end MotionNotation
