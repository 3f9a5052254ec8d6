import MotionNotation.Config
import MotionNotation.Target

/-!
# Operators

The sixteen operators of the notation.  Twelve of them write a channel; the
others say how long a pipe takes and how often it runs.
-/

namespace MotionNotation

/-- Directions on the screen, where right and down increase. -/
inductive Heading where
  | left
  | right
  | up
  | down
  deriving DecidableEq, Repr

inductive LoopMode where
  | absolute
  | relative
  deriving DecidableEq, Repr

def LoopMode.word : LoopMode → String
  | absolute => "absolute"
  | relative => "relative"

inductive Operator where
  | position (axis : Axis)
  | move (heading : Heading)
  | scale
  | rotate (axis : Axis)
  | fade
  | duration
  | stagger
  | loop (mode : LoopMode)
  deriving DecidableEq, Repr

namespace Operator

def all : List Operator :=
  [.position .x, .position .y, .position .z,
    .move .left, .move .right, .move .up, .move .down,
    .scale, .rotate .z, .rotate .x, .rotate .y, .fade,
    .duration, .stagger, .loop .absolute, .loop .relative]

theorem mem_all (operator : Operator) : operator ∈ all := by
  cases operator with
  | position axis => cases axis <;> decide
  | move heading => cases heading <;> decide
  | rotate axis => cases axis <;> decide
  | loop mode => cases mode <;> decide
  | _ => decide

def symbol : Operator → Char
  | position .x => 'x'
  | position .y => 'y'
  | position .z => 'z'
  | move .left => '<'
  | move .right => '>'
  | move .up => '^'
  | move .down => 'v'
  | scale => 's'
  | rotate .z => 'r'
  | rotate .x => 'p'
  | rotate .y => 'w'
  | fade => 'f'
  | duration => 'd'
  | stagger => 'D'
  | loop .absolute => 'L'
  | loop .relative => 'l'

def ofSymbol? (symbol : Char) : Option Operator :=
  all.find? (·.symbol == symbol)

theorem ofSymbol?_symbol (operator : Operator) : ofSymbol? operator.symbol = some operator := by
  cases operator with
  | position axis => cases axis <;> rfl
  | move heading => cases heading <;> rfl
  | rotate axis => cases axis <;> rfl
  | loop mode => cases mode <;> rfl
  | _ => rfl

theorem symbol_of_ofSymbol? {symbol : Char} {operator : Operator}
    (h : ofSymbol? symbol = some operator) : operator.symbol = symbol := by
  simpa using List.find?_some h

def key : Operator → String
  | position .x => "PositionX"
  | position .y => "PositionY"
  | position .z => "PositionZ"
  | move .left => "MoveLeft"
  | move .right => "MoveRight"
  | move .up => "MoveUp"
  | move .down => "MoveDown"
  | scale => "Scale"
  | rotate .z => "Roll"
  | rotate .x => "Pitch"
  | rotate .y => "Yaw"
  | fade => "Fade"
  | duration => "Duration"
  | stagger => "StaggeredDuration"
  | loop .absolute => "LoopAbsolute"
  | loop .relative => "LoopRelative"

def channel? : Operator → Option Channel
  | position axis => some (.translation axis)
  | move .left | move .right => some (.translation .x)
  | move .up | move .down => some (.translation .y)
  | scale => some .scale
  | rotate axis => some (.rotation axis)
  | fade => some .alpha
  | duration | stagger | loop _ => none

def isDuration : Operator → Bool
  | duration | stagger => true
  | _ => false

def loopMode? : Operator → Option LoopMode
  | loop mode => some mode
  | _ => none

variable {α : Type} [Scalar α]

def defaultValue (operator : Operator) (target : Target α) (config : Config α) : α :=
  match operator with
  | position _ | rotate _ => 0
  | move .left | move .right => target.width
  | move .up | move .down => target.height
  | scale | fade => 1
  | duration | stagger => config.defaultDuration
  | loop _ => -1

/-- Where an operator starts and where it ends, read off the live target.  An
inverse move or rotation comes from the far side and ends where the target is;
an inverse scale or fade comes from the farther end of the unit interval. -/
def endpoints (operator : Operator) (inverse : Bool) (value : α) (target : Target α) : α × α :=
  match operator with
  | position axis =>
    let current := target.translation.get axis
    if inverse then (value, current) else (current, value)
  | move .left => retreat (target.translation.get .x)
  | move .up => retreat (target.translation.get .y)
  | rotate axis => retreat (target.rotation.get axis)
  | move .right => advance (target.translation.get .x)
  | move .down => advance (target.translation.get .y)
  | scale => if inverse then (farEnd, value) else (target.scale, value)
  | fade => if inverse then (farEnd, value) else (target.alpha, value)
  | stagger =>
    let seconds := value * Scalar.ofNat target.siblingIndex
    (seconds, seconds)
  | duration | loop _ => (value, value)
where
  retreat (current : α) : α × α :=
    if inverse then (current + value, current) else (current, current - value)
  advance (current : α) : α × α :=
    if inverse then (current - value, current) else (current, current + value)
  farEnd : α :=
    if 1 / 2 < value then 0 else 1

end Operator

end MotionNotation
