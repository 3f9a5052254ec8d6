import MotionNotation.Action.Grid
import MotionNotation.Decimal.Layout
import MotionNotation.Plan
import MotionNotation.Stage.Identifier
import MotionNotation.Text.Quoted

/-!
# Notes

Remarks on what the library does, for whoever watches it.  A note is a cause;
its level and its wording follow from it.
-/

namespace MotionNotation

namespace Note

inductive Level where
  | warn
  | debug
  | trace
  deriving DecidableEq, Repr

namespace Level

def rank : Level → Nat
  | warn => 0
  | debug => 1
  | trace => 2

def word : Level → String
  | warn => "WARN"
  | debug => "DEBUG"
  | trace => "TRACE"

def hears (level other : Level) : Bool :=
  decide (other.rank ≤ level.rank)

end Level

end Note

inductive Note where
  | literalOverflow (value : Float)
  | easingWithoutIndex
  | easingOutOfRange (index : Float) (kept : Easing)
  | gridRead (text : String) (pipes actions : Nat)
  | loopOverridden (pipe : Nat) (mode previous : LoopMode)
  | launched (text : String) (groups : Nat) (now : Float)
  | pipeStarted (group : Nat) (plan : PipePlan Float)
  | pipeProgressed (group pipe : Nat) (progress : Float)
  | pipeCompleted (group pipe : Nat)
  | groupCompleted (group : Nat)
  | targetAdded (id : TargetId)
  | targetRemoved (id : TargetId)
  | targetMissing (id : TargetId)
  | animationStarted (id : AnimationId) (target : TargetId)
  | animationStopped (id : AnimationId)
  | animationCompleted (id : AnimationId)
  | animationOrphaned (id : AnimationId) (target : TargetId)
  | animationAbandoned (id : AnimationId) (error : CapacityExceeded)
  deriving DecidableEq, Repr

namespace Note

def level : Note → Level
  | literalOverflow _ | easingWithoutIndex | easingOutOfRange .. | targetMissing _
  | animationOrphaned .. | animationAbandoned .. => .warn
  | pipeProgressed .. => .trace
  | gridRead .. | loopOverridden .. | launched .. | pipeStarted .. | pipeCompleted ..
  | groupCompleted _ | targetAdded _ | targetRemoved _ | animationStarted ..
  | animationStopped _ | animationCompleted _ => .debug

def repetitionLabel : Repetition → String
  | .finite count => "Finite(" ++ count.repr ++ ")"
  | .infinite => "Infinite"

def place (group pipe : Nat) : String :=
  "group " ++ group.repr ++ " pipe " ++ pipe.repr

def message : Note → String
  | literalOverflow value =>
    "literal overflowed to " ++ Decimal.plain value ++ ", using the operator default"
  | easingWithoutIndex => "easing switch without an index ignored"
  | easingOutOfRange index kept =>
    "easing index " ++ Decimal.plain index ++ " out of range (0.." ++
      Easing.all.length.repr ++ "), keeping " ++ kept.phrase
  | gridRead text pipes actions =>
    "parsed " ++ Text.quoted text ++ " into " ++ pipes.repr ++ " active pipe(s), " ++
      actions.repr ++ " action(s)"
  | loopOverridden pipe mode previous =>
    "pipe " ++ pipe.repr ++ " loop directive " ++ mode.word ++ " overrides " ++ previous.word
  | launched text groups now =>
    "animate " ++ Text.quoted text ++ " with " ++ groups.repr ++ " group(s) at " ++
      Decimal.plain now
  | pipeStarted group plan =>
    place group plan.index ++ " started (" ++ Decimal.plain plan.duration ++ "s, " ++
      repetitionLabel plan.repetition ++ ", " ++ plan.mode.word ++ ")"
  | pipeProgressed group pipe progress =>
    place group pipe ++ " progress " ++ Decimal.fixedPlaces progress 4
  | pipeCompleted group pipe => place group pipe ++ " completed"
  | groupCompleted group => "group " ++ group.repr ++ " completed"
  | targetAdded id => "stage added target " ++ id.label
  | targetRemoved id => "stage removed target " ++ id.label
  | targetMissing id => "stage has no target " ++ id.label
  | animationStarted id target => "stage started " ++ id.label ++ " on " ++ target.label
  | animationStopped id => "stage stopped " ++ id.label
  | animationCompleted id => "stage " ++ id.label ++ " completed"
  | animationOrphaned id target =>
    "dropping " ++ id.label ++ ", target " ++ target.label ++ " is gone"
  | animationAbandoned id error =>
    "stage " ++ id.label ++ " could not continue: " ++ error.message

def line (note : Note) : String :=
  note.level.word ++ " laba: " ++ note.message

def lines (level : Level) (notes : List Note) : List String :=
  (notes.filter fun note => level.hears note.level).map line

end Note

end MotionNotation
