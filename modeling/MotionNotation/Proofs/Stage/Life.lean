import MotionNotation.Proofs.Playback.Activation
import MotionNotation.Proofs.Stage.Integrity

/-!
# Lives of animations

The life of an animation is what a host may hear of it: the events of the
notation it was started with, then for a script the main notation, once or again
and again, and at the end that it is completed.  A life is told here without a
stage, as a grammar of its beginnings.
-/

namespace MotionNotation

namespace StageEvent

variable {α : Type}

def animation : StageEvent α → AnimationId
  | group animation _ _ | animationCompleted animation _ | playbackRestarted animation _ =>
    animation

def isCompletion : StageEvent α → Bool
  | animationCompleted .. => true
  | group .. | playbackRestarted .. => false

def ofAnimation (id : AnimationId) (events : List (StageEvent α)) : List (StageEvent α) :=
  events.filter fun event => event.animation == id

@[simp] theorem ofAnimation_nil (id : AnimationId) :
    ofAnimation id ([] : List (StageEvent α)) = [] := rfl

@[simp] theorem ofAnimation_append (id : AnimationId) (first second : List (StageEvent α)) :
    ofAnimation id (first ++ second) = ofAnimation id first ++ ofAnimation id second :=
  List.filter_append ..

theorem ofAnimation_eq_self {id : AnimationId} {events : List (StageEvent α)}
    (h : ∀ event ∈ events, event.animation = id) : ofAnimation id events = events :=
  List.filter_eq_self.mpr fun event hmem => by simpa using h event hmem

theorem ofAnimation_eq_nil {id : AnimationId} {events : List (StageEvent α)}
    (h : ∀ event ∈ events, event.animation ≠ id) : ofAnimation id events = [] :=
  List.filter_eq_nil_iff.mpr fun event hmem => by simpa using h event hmem

end StageEvent

namespace Stage

variable {α : Type} [Scalar α]

def Reads (config : Config α) (text : String) (plans : List (Plan α)) : Prop :=
  ∃ target segments, Segment.readAll config target text = .ok segments ∧
    plans = segments.map Segment.plan

inductive Standing (α : Type) where
  | playing (routine : Routine) (plans : List (Plan α)) (told : List (GroupEvent α))
  | completed

/-- The beginnings of the life that a start promises. -/
inductive Life (config : Config α) (launch : Launch) : List (StageEvent α) → Standing α → Prop
  | opens {plans : List (Plan α)} (reads : Reads config launch.text plans) :
      Life config launch [] (.playing launch.routine plans [])
  | tells {events : List (StageEvent α)} {routine : Routine} {plans : List (Plan α)}
      {told : List (GroupEvent α)} (life : Life config launch events (.playing routine plans told))
      (event : GroupEvent α) (begun : Plan.Begun plans (told ++ [event])) :
      Life config launch (events ++ [.group launch.id launch.target event])
        (.playing routine plans (told ++ [event]))
  | continues {events : List (StageEvent α)} {script : Script} {plans next : List (Plan α)}
      {told : List (GroupEvent α)}
      (life : Life config launch events (.playing (.intro script) plans told))
      (played : Plan.Played plans told) (reads : Reads config script.main next) :
      Life config launch events (.playing (.main script) next [])
  | restarts {events : List (StageEvent α)} {script : Script} {plans next : List (Plan α)}
      {told : List (GroupEvent α)}
      (life : Life config launch events (.playing (.main script) plans told))
      (played : Plan.Played plans told) (again : script.repeats = true)
      (reads : Reads config script.main next) :
      Life config launch (events ++ [.playbackRestarted launch.id launch.target])
        (.playing (.main script) next [])
  | completes {events : List (StageEvent α)} {routine : Routine} {plans : List (Plan α)}
      {told : List (GroupEvent α)} (life : Life config launch events (.playing routine plans told))
      (played : Plan.Played plans told)
      (last : ∀ script, routine.script? = some script →
        routine = .main script ∧ script.repeats = false) :
      Life config launch (events ++ [.animationCompleted launch.id launch.target]) .completed

namespace Life

variable {config : Config α} {launch : Launch} {events : List (StageEvent α)}
  {standing : Standing α}

theorem tells_all {routine : Routine} {plans : List (Plan α)} {told more : List (GroupEvent α)}
    (life : Life config launch events (.playing routine plans told))
    (begun : Plan.Begun plans (told ++ more)) :
    Life config launch (events ++ more.map (.group launch.id launch.target))
      (.playing routine plans (told ++ more)) := by
  induction more generalizing events told with
  | nil => simpa using life
  | cons event rest ih =>
      have hsplit : told ++ event :: rest = told ++ [event] ++ rest := by simp
      rw [hsplit] at begun ⊢
      simpa using ih (life.tells event begun.of_append) begun

end Life

end Stage

end MotionNotation
