import MotionNotation.Journal.Note
import MotionNotation.Notation.Segment

/-!
# The journal of reading

The notes on reading a notation, in the order in which a reader comes across
their causes, and up to the action that does not fit.
-/

namespace MotionNotation.Journal

variable (config : Config Float) (target : Target Float)

def ofLiteral : Literal Float → List Note
  | .unbounded value => [.literalOverflow value]
  | .missing | .number _ => []

def ofSelection (current : Easing) (literal : Literal Float) : List Note :=
  match literal.value? with
  | none => [.easingWithoutIndex]
  | some value =>
    if (Reader.easingAt? value).isSome then [] else [.easingOutOfRange value current]

def ofMark (reader : Reader Float) (mark : Mark) (literal : Literal Float) : List Note :=
  match mark with
  | .invert | .nextPipe | .pause => []
  | .ease => ofLiteral literal ++ ofSelection reader.easing literal
  | .act _ => ofLiteral literal

def ofRun (reader : Reader Float) : List Char → List Note
  | [] => []
  | c :: rest =>
    match Mark.ofChar? c with
    | none => ofRun reader rest
    | some mark =>
      let literal := Literal.find rest
      ofMark reader mark literal ++
        match reader.step config target mark literal with
        | .ok next => ofRun next rest
        | .error _ => []

def ofGrid (text : String) : List Note :=
  ofRun config target (.start config) text.toList ++
    match Grid.read config target text with
    | .ok grid => [.gridRead text grid.activePipes.length grid.actions.length]
    | .error _ => []

/-- Notes on loop operators that are not the first of their pipe. -/
def ofLoops (pipe : Nat) : List LoopMode → List Note
  | previous :: mode :: rest => .loopOverridden pipe mode previous :: ofLoops pipe (mode :: rest)
  | [_] | [] => []

def ofPlan (grid : Grid Float) : List Note :=
  grid.activePipes.flatMap fun entry =>
    ofLoops entry.1 ((PipePlan.loopRequests entry.2).map Prod.snd)

def ofSegment (text : String) : List Note :=
  ofGrid config target text ++
    match Grid.read config target text with
    | .ok grid => ofPlan grid
    | .error _ => []

def ofGroups : List String → List Note
  | [] => []
  | text :: rest =>
    ofSegment config target text ++
      match Segment.read config target text with
      | .ok _ => ofGroups rest
      | .error _ => []

def ofNotation (text : String) : List Note :=
  ofGroups config target (Groups.ofText text)

/-- Nothing is read for the description of an empty notation. -/
def ofDescription (text : String) : List Note :=
  if text.isEmpty then [] else ofNotation config target text

end MotionNotation.Journal
