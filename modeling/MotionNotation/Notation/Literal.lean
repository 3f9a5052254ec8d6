import MotionNotation.Notation.Mark

/-!
# Literals

The number behind a mark.  It reaches from the first number character to the
next mark; of what lies between, only a leading sign, the first point and the
digits count.
-/

namespace MotionNotation

structure Tally (α : Type) where
  value : α
  fractional : Bool
  /-- The weight of the next digit behind the point is one over this. -/
  divisor : α
  deriving DecidableEq, Repr

namespace Tally

variable {α : Type} [Scalar α]

def start : Tally α :=
  ⟨0, false, 10⟩

def digitValue (c : Char) : Nat :=
  c.toNat - '0'.toNat

def feed (tally : Tally α) (c : Char) : Tally α :=
  if c.isDigit then
    let digit : α := Scalar.ofNat (digitValue c)
    if tally.fractional then
      { tally with value := tally.value + digit / tally.divisor, divisor := tally.divisor * 10 }
    else { tally with value := tally.value * 10 + digit }
  else if c = '.' then { tally with fractional := true }
  else tally

/-- Reads up to the next mark, and returns what is left from there on. -/
def read (tally : Tally α) : List Char → Tally α × List Char
  | [] => (tally, [])
  | c :: rest => if Mark.isMark c then (tally, c :: rest) else (tally.feed c).read rest

theorem read_rest (tally : Tally α) (text : List Char) :
    (tally.read text).2 = text.dropWhile fun c => !Mark.isMark c := by
  induction text generalizing tally with
  | nil => rfl
  | cons c rest ih => by_cases h : Mark.isMark c <;> simp [read, h, ih]

theorem read_tally (tally : Tally α) (text : List Char) :
    (tally.read text).1 = (text.takeWhile fun c => !Mark.isMark c).foldl feed tally := by
  induction text generalizing tally with
  | nil => rfl
  | cons c rest ih => by_cases h : Mark.isMark c <;> simp [read, h, ih]

end Tally

inductive Literal (α : Type) where
  | missing
  /-- More digits than the scalar has room for. -/
  | unbounded (value : α)
  | number (value : α)
  deriving DecidableEq, Repr

namespace Literal

variable {α : Type} [Scalar α]

def readNumber : List Char → α × List Char
  | '-' :: rest =>
    let result := Tally.start.read rest
    (-result.1.value, result.2)
  | '+' :: rest =>
    let result := Tally.start.read rest
    (result.1.value, result.2)
  | text =>
    let result := Tally.start.read text
    (result.1.value, result.2)

def ofValue (value : α) : Literal α :=
  if Scalar.isFinite value then number value else unbounded value

def find : List Char → Literal α
  | [] => missing
  | c :: rest =>
    if Mark.isMark c then missing
    else if Mark.isNumberChar c then ofValue (readNumber (c :: rest)).1
    else find rest

def value? : Literal α → Option α
  | number value => some value
  | missing | unbounded _ => none

end Literal

end MotionNotation
