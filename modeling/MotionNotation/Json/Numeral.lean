import MotionNotation.Json.Basic

/-!
# JSON numbers

A number is read in two steps: its spelling, and the value.  An integer that
fits a machine word is exact.  Any other number is a float made from the leading
digits that fit a word, scaled by one power of ten, so the last digit of a long
number may be off by one.
-/

namespace MotionNotation.Json

structure Numeral where
  negative : Bool
  whole : List Nat
  fraction : Option (List Nat)
  exponent : Option (Bool × List Nat)
  deriving DecidableEq, Repr

namespace Numeral

def digits (text : List Char) : List Nat :=
  text.map fun c => c.toNat - '0'.toNat

/-! ## Spelling -/

def ofExponent (negative : Bool) (whole : List Nat) (fraction : Option (List Nat))
    (text : List Char) : Option Numeral :=
  let finish (below : Bool) (rest : List Char) : Option Numeral :=
    if rest.isEmpty || !rest.all Char.isDigit then none
    else some ⟨negative, whole, fraction, some (below, digits rest)⟩
  match text with
  | [] => some ⟨negative, whole, fraction, none⟩
  | mark :: '-' :: rest => if mark = 'e' ∨ mark = 'E' then finish true rest else none
  | mark :: '+' :: rest => if mark = 'e' ∨ mark = 'E' then finish false rest else none
  | mark :: rest => if mark = 'e' ∨ mark = 'E' then finish false rest else none

def ofFraction (negative : Bool) (whole : List Nat) (text : List Char) : Option Numeral :=
  match text with
  | '.' :: rest =>
    let places := rest.takeWhile Char.isDigit
    if places.isEmpty then none
    else ofExponent negative whole (some (digits places)) (rest.dropWhile Char.isDigit)
  | text => ofExponent negative whole none text

def ofWhole (negative : Bool) (text : List Char) : Option Numeral :=
  let whole := text.takeWhile Char.isDigit
  let rest := text.dropWhile Char.isDigit
  match whole with
  | [] => none
  | '0' :: _ :: _ => none
  | whole => ofFraction negative (digits whole) rest

def ofChars? : List Char → Option Numeral
  | '-' :: rest => ofWhole true rest
  | text => ofWhole false text

/-! ## Value -/

def wordBound : Nat := 18446744073709551616

/-- Appends digits as long as the result fits a word, and returns the others. -/
def absorb (significand : Nat) : List Nat → Nat × List Nat
  | [] => (significand, [])
  | digit :: rest =>
    if significand * 10 + digit < wordBound then absorb (significand * 10 + digit) rest
    else (significand, digit :: rest)

def ofDigits (digits : List Nat) : Nat :=
  digits.foldl (fun value digit => value * 10 + digit) 0

def powerOfTen (exponent : Nat) : Float :=
  Float.ofScientific 1 false exponent

/-- Scales by a power of ten, in two steps where one power is out of range. -/
def scale (significand : Float) (exponent : Int) : Float :=
  if 308 < exponent then
    if significand == 0 then significand else significand * powerOfTen 308 * powerOfTen 308
  else if 0 ≤ exponent then significand * powerOfTen exponent.toNat
  else if -308 ≤ exponent then significand / powerOfTen (-exponent).toNat
  else if -616 ≤ exponent then
    significand / powerOfTen 308 / powerOfTen (-exponent - 308).toNat
  else 0

def parts (numeral : Numeral) : Nat × Int :=
  let (leading, dropped) := absorb 0 numeral.whole
  let fraction := numeral.fraction.getD []
  let (significand, unread) := absorb leading fraction
  let point : Int := dropped.length - (fraction.length - unread.length : Nat)
  match numeral.exponent with
  | none => (significand, point)
  | some (below, power) =>
    let power : Int := ofDigits power
    (significand, if below then point - power else point + power)

def toFloat (numeral : Numeral) : Float :=
  let (significand, exponent) := numeral.parts
  let magnitude := scale (Float.ofNat significand) exponent
  if numeral.negative then -magnitude else magnitude

/-- Zero with a sign is not an integer, and neither is what does not fit. -/
def toNumber (numeral : Numeral) : Number :=
  let value := ofDigits numeral.whole
  if numeral.fraction.isSome || numeral.exponent.isSome then .real numeral.toFloat
  else if numeral.negative then
    if 0 < value ∧ 2 * value ≤ wordBound then .integer (-value) else .real numeral.toFloat
  else if value < wordBound then .integer value
  else .real numeral.toFloat

end Numeral

end MotionNotation.Json
