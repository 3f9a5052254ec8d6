import MotionNotation.Notation.Literal
import MotionNotation.Action.Grid

/-!
# Reading notation

A reader walks over the characters of one group of a notation and fills a grid.
It acts on the marks, each with the literal behind it, and skips everything
else, so the only failure is a grid that is full.
-/

namespace MotionNotation

structure Reader (α : Type) where
  grid : Grid α
  pipe : Nat
  easing : Easing
  inverse : Bool
  deriving DecidableEq, Repr

namespace Reader

variable {α : Type} [Scalar α]

def start (config : Config α) : Reader α where
  grid := .empty config.maxPipes config.maxActions
  pipe := 0
  easing := config.initialEasing
  inverse := false

def easingAt? (value : α) : Option Easing :=
  if -1 < value ∧ value < Scalar.ofNat Easing.all.length then
    Easing.atPlace? (Scalar.wholePart value)
  else none

/-- The easing that a literal selects; without a usable one the current easing
stays. -/
def selectEasing (current : Easing) (literal : Literal α) : Easing :=
  (literal.value?.bind easingAt?).getD current

/-- A pause takes a pipe of its own. -/
def pausePipe (reader : Reader α) : Nat :=
  if (reader.grid.pipe reader.pipe).isEmpty then reader.pipe else reader.pipe + 1

def step (config : Config α) (target : Target α) (reader : Reader α) (mark : Mark)
    (literal : Literal α) : Except CapacityExceeded (Reader α) :=
  match mark with
  | .invert => .ok { reader with inverse := true }
  | .nextPipe => .ok { reader with pipe := reader.pipe + 1 }
  | .pause =>
    match reader.grid.push reader.pausePipe (.pause config.pauseDuration reader.easing) with
    | .ok grid => .ok { reader with grid, pipe := reader.pausePipe + 1 }
    | .error full => .error full
  | .ease =>
    .ok { reader with easing := selectEasing reader.easing literal, inverse := false }
  | .act operator =>
    let action :=
      Action.resolve operator reader.inverse literal.value? reader.easing target config
    match reader.grid.push reader.pipe action with
    | .ok grid => .ok { reader with grid, inverse := false }
    | .error full => .error full

def run (config : Config α) (target : Target α) (reader : Reader α) :
    List Char → Except CapacityExceeded (Reader α)
  | [] => .ok reader
  | c :: rest =>
    match Mark.ofChar? c with
    | none => reader.run config target rest
    | some mark =>
      match reader.step config target mark (Literal.find rest) with
      | .ok next => next.run config target rest
      | .error full => .error full

end Reader

namespace Grid

variable {α : Type} [Scalar α]

def read (config : Config α) (target : Target α) (text : String) :
    Except CapacityExceeded (Grid α) :=
  match (Reader.start config).run config target text.toList with
  | .ok reader => .ok reader.grid
  | .error full => .error full

end Grid

end MotionNotation
