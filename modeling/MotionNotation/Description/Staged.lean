import MotionNotation.Description.Basic
import MotionNotation.Stage.Basic

/-!
# Descriptions for targets of a stage
-/

namespace MotionNotation.Stage

def describe (stage : Stage Float) (id : TargetId) (text : String) : Except Error String :=
  match stage.target? id with
  | none => .error (.unknownTarget id)
  | some target =>
    match Description.describe stage.config target text with
    | .ok description => .ok description
    | .error full => .error (.capacityExceeded full)

end MotionNotation.Stage
