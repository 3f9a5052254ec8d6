import MotionNotation.Operator

/-!
# Marks

The characters that a notation is made of: marks, which do something, and the
characters of numbers.  All others are skipped.
-/

namespace MotionNotation

inductive Mark where
  | invert
  | nextPipe
  | pause
  | ease
  | act (operator : Operator)
  deriving DecidableEq, Repr

namespace Mark

def ofChar? (c : Char) : Option Mark :=
  if c = '!' then some invert
  else if c = '|' then some nextPipe
  else if c = ',' then some pause
  else if c = 'e' then some ease
  else (Operator.ofSymbol? c).map act

def isMark (c : Char) : Bool :=
  (ofChar? c).isSome

theorem ofChar?_symbol (operator : Operator) :
    ofChar? operator.symbol = some (act operator) := by
  cases operator with
  | position axis => cases axis <;> rfl
  | move heading => cases heading <;> rfl
  | rotate axis => cases axis <;> rfl
  | loop mode => cases mode <;> rfl
  | _ => rfl

def isNumberChar (c : Char) : Bool :=
  c.isDigit || c == '+' || c == '-' || c == '.'

end Mark

end MotionNotation
