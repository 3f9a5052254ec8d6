import MotionNotation.Action.Basic
import MotionNotation.Description.Number

/-!
# Clauses

What one action does, in words.  Durations and loop operators are told at the
end of the sentence of their pipe and have no clause of their own.
-/

namespace MotionNotation

def Axis.letter : Axis → String
  | x => "x"
  | y => "y"
  | z => "z"

namespace Heading

def word : Heading → String
  | left => "left"
  | right => "right"
  | up => "up"
  | down => "down"

def source : Heading → String
  | left => "right"
  | right => "left"
  | up => "below"
  | down => "above"

end Heading

namespace Action

def clause (action : Action Float) : String :=
  let amount := Description.number action.value
  match action.operator with
  | .position axis =>
    (if action.inverse then "move from " else "move to ") ++ amount ++ " " ++ axis.letter ++
      " pos, "
  | .move heading =>
    (if action.inverse then "move in from " ++ heading.source else "move " ++ heading.word) ++
      " " ++ amount ++ " units, "
  | .scale =>
    (if action.inverse then "scale in from " else "scale to ") ++
      Description.percent action.value ++ "%, "
  | .rotate axis =>
    (if action.inverse then "rotate in from around " else "rotate around ") ++ axis.letter ++
      " by " ++ amount ++ ", "
  | .fade =>
    if action.inverse then
      "fade from " ++ Description.percent action.origin ++ "% to " ++
        Description.percent action.goal ++ "%, "
    else "fade to " ++ Description.percent action.value ++ "%, "
  | .duration | .stagger | .loop _ => ""

end Action

end MotionNotation
