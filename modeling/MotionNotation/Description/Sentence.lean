import MotionNotation.Description.Clause
import MotionNotation.Notation.Segment

/-!
# Sentences

One sentence for each planned pipe: the clauses of its actions, how often it
runs, and the easing and time it takes.
-/

namespace MotionNotation

namespace Repetition

/-- How often a pipe runs, in words; a single run is not told. -/
def clause (repetition : Repetition) (mode : LoopMode) : String :=
  match repetition with
  | finite count =>
    if 1 < count then " " ++ mode.word ++ " repeating " ++ count.repr ++ " times, " else ""
  | infinite => " " ++ mode.word ++ " repeating forever, "

end Repetition

namespace PipePlan

def deeds (plan : PipePlan Float) (actions : List (Action Float)) : String :=
  String.join (actions.map Action.clause) ++ plan.repetition.clause plan.mode

def ending (plan : PipePlan Float) (actions : List (Action Float)) : String :=
  (match actions.head? with
    | some first => " " ++ first.easing.phrase
    | none => "") ++
  (if plan.duration == 0 then " instantly."
    else " over " ++ Description.number plan.duration ++ " seconds.")

def sentence (plan : PipePlan Float) (actions : List (Action Float)) : String :=
  let deeds := plan.deeds actions
  if deeds = "" then " wait for " ++ Description.number plan.duration ++ " seconds."
  else deeds ++ plan.ending actions

end PipePlan

namespace Segment

def sentences (segment : Segment Float) (target : Target Float) : List String :=
  segment.plan.pipes.map fun plan =>
    plan.sentence ((segment.grid.pipe plan.index).map (·.rebase target))

def describe (segment : Segment Float) (target : Target Float) : String :=
  String.intercalate " Once complete then " (segment.sentences target)

end Segment

end MotionNotation
