import MotionNotation.Stage.Basic

/-!
# Operations on stages

Everything that a host can do to a stage, as data, so that a run of a stage is a
list of operations.  An operation that is refused leaves the stage as it was.
-/

namespace MotionNotation.Stage

inductive Operation (α : Type) where
  | addTarget (target : Target α)
  | removeTarget (id : TargetId)
  | animate (id : TargetId) (text : String) (now : α) (signal : Option Nat)
  | play (id : TargetId) (script : Script) (now : α)
  | stop (id : AnimationId)
  | update (now : α)
  deriving DecidableEq, Repr

variable {α : Type}

def settle (stage : Stage α) : Except Error (AnimationId × Stage α) → Stage α
  | .ok (_, next) => next
  | .error _ => stage

theorem settle_cases {motive : Stage α → Prop} {stage : Stage α}
    {attempt : Except Error (AnimationId × Stage α)} (refused : motive stage)
    (accepted : ∀ animation next, attempt = .ok (animation, next) → motive next) :
    motive (stage.settle attempt) := by
  cases attempt with
  | error error => exact refused
  | ok result => exact accepted result.1 result.2 rfl

variable [Scalar α] [Eases α]

def perform (stage : Stage α) : Operation α → Stage α
  | .addTarget target => (stage.addTarget target).2
  | .removeTarget id => stage.removeTarget id
  | .animate id text now signal => stage.settle (stage.animate id text now signal)
  | .play id script now => stage.settle (stage.play id script now)
  | .stop id => stage.stop id
  | .update now => stage.update now

def run (stage : Stage α) (operations : List (Operation α)) : Stage α :=
  operations.foldl perform stage

@[simp] theorem run_concat (stage : Stage α) (operations : List (Operation α))
    (operation : Operation α) :
    stage.run (operations ++ [operation]) = (stage.run operations).perform operation := by
  simp [run]

/-! ## What a start does -/

theorem launch_ok {stage next : Stage α} {id : TargetId} {text : String} {now : α}
    {signal : Option Nat} {routine : Routine} {animation : AnimationId}
    (h : stage.launch id text now signal routine = .ok (animation, next)) :
    ∃ target turn,
      stage.target? id = some target ∧
      Animation.launch stage.config target text now signal = .ok turn ∧
      animation = stage.ids.takeAnimation.1 ∧
      next = { stage with
        ids := stage.ids.takeAnimation.2
        targets := stage.targets.insert id turn.target
        running := stage.running ++ [⟨animation, id, turn.animation, routine⟩]
        pending := stage.pending ++ eventsOf animation id turn.beats } := by
  unfold launch at h
  split at h
  · cases h
  · rename_i target htarget
    split at h
    · cases h
    · rename_i turn hturn
      cases h
      exact ⟨target, turn, htarget, hturn, rfl, rfl⟩

theorem play_ok {stage next : Stage α} {id : TargetId} {script : Script} {now : α}
    {animation : AnimationId} (h : stage.play id script now = .ok (animation, next)) :
    stage.launch id script.opening.1 now none script.opening.2 = .ok (animation, next) := by
  unfold play at h
  split at h
  · cases h
  · split at h
    · cases h
    · exact h

theorem fits_of_play_ok {stage next : Stage α} {id : TargetId} {script : Script} {now : α}
    {animation : AnimationId} (h : stage.play id script now = .ok (animation, next))
    {target : Target α} (htarget : stage.target? id = some target) :
    ∃ segments, Segment.readAll stage.config target script.main = .ok segments := by
  unfold play at h
  rw [htarget] at h
  dsimp only at h
  split at h
  · cases h
  · rename_i segments hread
    exact ⟨segments, hread⟩

end MotionNotation.Stage
