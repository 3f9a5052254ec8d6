import MotionNotation.Decimal.Layout

/-!
# Numbers in sentences

A number in a sentence has at most four decimal places and no sign on zero.
-/

namespace MotionNotation.Description

/-- The multiple of a ten-thousandth nearest to a float, as a float. -/
def roundToPlaces (x : Float) : Float :=
  let rounded := Decimal.nearestWhole (x * 10000) / 10000
  if rounded == 0 then 0 else rounded

def number (x : Float) : String :=
  Decimal.plain (roundToPlaces x)

def percent (x : Float) : String :=
  number (x * 100)

end MotionNotation.Description
