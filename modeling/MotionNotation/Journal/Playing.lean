import MotionNotation.Easing.Transcendental
import MotionNotation.Journal.Reading
import MotionNotation.Playback.Animation
import MotionNotation.Stage.Basic

/-!
# The journal of playing

The notes on animations and stages.  What happens while a notation runs is read
off the beats of an update.
-/

namespace MotionNotation.Journal

def ofBeat? (entry : GroupBeat Float) : Option Note :=
  match entry.beat with
  | .started plan => some (.pipeStarted entry.group plan)
  | .progressed pipe progress => some (.pipeProgressed entry.group pipe progress)
  | .completed pipe => some (.pipeCompleted entry.group pipe)
  | .groupCompleted => some (.groupCompleted entry.group)
  | .wrote _ | .looped _ | .signalled _ => none

def ofBeats (beats : List (GroupBeat Float)) : List Note :=
  beats.filterMap ofBeat?

def ofLaunch (config : Config Float) (target : Target Float) (text : String) (now : Float) :
    List Note :=
  ofNotation config target text ++
    match Segment.readAll config target text with
    | .ok segments =>
      .launched text segments.length now :: ofBeats (Animation.start segments target now none).beats
    | .error _ => []

/-! ## Stages -/

def ofStart (stage : Stage Float) (id : TargetId) (text : String) (now : Float)
    (outcome : Except Stage.Error (AnimationId × Stage Float)) : List Note :=
  match stage.target? id with
  | none => [.targetMissing id]
  | some target =>
    ofLaunch stage.config target text now ++
      match outcome with
      | .ok (animation, _) => [.animationStarted animation id]
      | .error _ => []

def ofAnimate (stage : Stage Float) (id : TargetId) (text : String) (now : Float) : List Note :=
  ofStart stage id text now (stage.animate id text now none)

/-- Notes on `Stage.play`: the main notation is read first, whatever is started
then. -/
def ofPlay (stage : Stage Float) (id : TargetId) (script : Script) (now : Float) : List Note :=
  match stage.target? id with
  | none => [.targetMissing id]
  | some target =>
    ofNotation stage.config target script.main ++
      match Segment.readAll stage.config target script.main with
      | .ok _ => ofStart stage id script.opening.1 now (stage.play id script now)
      | .error _ => []

def ofStageDescription (stage : Stage Float) (id : TargetId) (text : String) : List Note :=
  match stage.target? id with
  | none => []
  | some target => ofDescription stage.config target text

def ofRemoval (stage : Stage Float) (id : TargetId) : List Note :=
  if (stage.target? id).isSome then [.targetRemoved id] else []

def ofStop (stage : Stage Float) (id : AnimationId) : List Note :=
  if stage.isRunning id then [.animationStopped id] else []

/-- Notes on an entry of an update; the beats of a notation that is continued
are entries of their own. -/
def ofEntry (config : Config Float) (now : Float) (entry : Stage.Entry Float) : List Note :=
  match entry with
  | .beat _ _ beat => (ofBeat? beat).toList
  | .restarted .. => []
  | .continued text target =>
    ofNotation config target text ++ [.launched text (Groups.ofText text).length now]
  | .abandoned animation text target error =>
    ofNotation config target text ++ [.animationAbandoned animation error]
  | .completed animation _ => [.animationCompleted animation]
  | .orphaned animation target => [.animationOrphaned animation target]

def ofUpdate (stage : Stage Float) (now : Float) : List Note :=
  (stage.sweep now).entries.flatMap (ofEntry stage.config now)

end MotionNotation.Journal
