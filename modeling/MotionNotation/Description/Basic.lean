import MotionNotation.Description.Sentence
import MotionNotation.Text.Uppercase

/-!
# Descriptions

The whole text for a notation: the sentences of its groups, numbered when there
are brackets, and tidied at the end.
-/

namespace MotionNotation.Description

def nothing : String := "do nothing"

def collapseSpaces : List Char → List Char
  | [] => []
  | c :: rest =>
    if c = ' ' ∧ rest.head? = some ' ' then collapseSpaces rest else c :: collapseSpaces rest

def capitalize : List Char → List Char
  | [] => []
  | first :: rest => Text.uppercase first ++ rest

def finalize (text : String) : String :=
  match Text.trim (collapseSpaces text.toList) with
  | [] => nothing
  | tidy => String.ofList (capitalize tidy)

def numberedLines (first : Nat) : List String → String
  | [] => ""
  | text :: rest =>
    "Animation #" ++ first.repr ++ " will " ++ text ++ "\n" ++ numberedLines (first + 1) rest

/-- The texts of bracket groups under one heading; blank ones are left out. -/
def gather (texts : List String) : String :=
  match texts.filter fun text => !Text.allBlank text.toList with
  | [] => ""
  | told => "Perform a series of animations at the same time.\n" ++ numberedLines 1 told

def describe (config : Config Float) (target : Target Float) (text : String) :
    Except CapacityExceeded String :=
  match Segment.readAll config target text with
  | .error full => .error full
  | .ok segments =>
    let texts := segments.map (·.describe target)
    .ok (finalize (if Groups.bracketed text.toList then gather texts else String.join texts))

def describeSized (text : String) (width height : Float) (siblingIndex : Nat) :
    Except CapacityExceeded String :=
  describe .standard { Target.standard with width, height, siblingIndex } text

def interfaceVersion : Nat := 1

end MotionNotation.Description
