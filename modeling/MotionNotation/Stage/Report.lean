import MotionNotation.Playback.Beat
import MotionNotation.Stage.Identifier

/-!
# Reports

What an update of a stage tells its host: the last value written to each channel
of each target, in the order of the first writes, and the events.
-/

namespace MotionNotation

structure Change (α : Type) where
  target : TargetId
  channel : Channel
  value : α
  deriving DecidableEq, Repr

inductive StageEvent (α : Type) where
  | group (animation : AnimationId) (target : TargetId) (event : GroupEvent α)
  | animationCompleted (animation : AnimationId) (target : TargetId)
  | playbackRestarted (animation : AnimationId) (target : TargetId)
  deriving DecidableEq, Repr

namespace Change

variable {α : Type}

def sameCell (first second : Change α) : Bool :=
  first.target == second.target && first.channel == second.channel

/-- Overwrites the change of the same target and channel, or appends one. -/
def record : List (Change α) → Change α → List (Change α)
  | [], change => [change]
  | first :: rest, change =>
    if first.sameCell change then { first with value := change.value } :: rest
    else first :: record rest change

def valueAt? (changes : List (Change α)) (target : TargetId) (channel : Channel) : Option α :=
  (changes.find? fun change => change.target == target && change.channel == channel).map value

@[simp] theorem valueAt?_nil (target : TargetId) (channel : Channel) :
    valueAt? ([] : List (Change α)) target channel = none := rfl

@[simp] theorem valueAt?_record (changes : List (Change α)) (change : Change α)
    (target : TargetId) (channel : Channel) :
    valueAt? (record changes change) target channel =
      if change.target = target ∧ change.channel = channel then some change.value
      else valueAt? changes target channel := by
  induction changes with
  | nil => by_cases h : change.target = target ∧ change.channel = channel <;>
      simp [record, valueAt?, h]
  | cons first rest ih =>
    by_cases hs : first.sameCell change
    · have same := hs
      simp only [sameCell, Bool.and_eq_true, beq_iff_eq] at same
      by_cases h : change.target = target ∧ change.channel = channel <;>
        simp [record, valueAt?, hs, same, h]
    · by_cases hf : first.target = target ∧ first.channel = channel
      · have : ¬ (change.target = target ∧ change.channel = channel) := by
          rintro ⟨rfl, rfl⟩
          simp [sameCell, hf] at hs
        simp [record, valueAt?, hs, hf, this]
      · simpa [record, valueAt?, hs, hf] using ih

end Change

structure Report (α : Type) where
  /-- Changes read from a document, which later writes leave alone. -/
  loaded : List (Change α)
  written : List (Change α)
  events : List (StageEvent α)
  deriving DecidableEq, Repr

namespace Report

variable {α : Type}

def empty : Report α :=
  ⟨[], [], []⟩

def clear (_ : Report α) : Report α :=
  empty

def changes (report : Report α) : List (Change α) :=
  report.loaded ++ report.written

def record (report : Report α) (change : Change α) : Report α :=
  { report with written := Change.record report.written change }

def recordAll (report : Report α) (changes : List (Change α)) : Report α :=
  changes.foldl record report

def tell (report : Report α) (event : StageEvent α) : Report α :=
  { report with events := report.events ++ [event] }

def isEmpty (report : Report α) : Bool :=
  report.changes.isEmpty && report.events.isEmpty

@[simp] theorem record_events (report : Report α) (change : Change α) :
    (report.record change).events = report.events := rfl

@[simp] theorem tell_changes (report : Report α) (event : StageEvent α) :
    (report.tell event).changes = report.changes := rfl

end Report

end MotionNotation
