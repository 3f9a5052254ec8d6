import MotionNotation.Decimal.Shortest

/-!
# Decimal texts of floats

A layout says how the shortest decimal of a float is written.  `plain` is the
layout of sentences and messages, `document` that of stored documents.
-/

namespace MotionNotation.Decimal

structure Layout where
  tie : Tie
  /-- The powers of ten of the first digit that are written without an exponent. -/
  positional : Int → Bool
  wholeSuffix : String

namespace Layout

def plain : Layout where
  tie := .up
  positional _ := true
  wholeSuffix := ""

/-- A whole number keeps its point, and an exponent is used below `1e-5` and
from `1e16`. -/
def document : Layout where
  tie := .even
  positional place := decide (-5 ≤ place ∧ place < 16)
  wholeSuffix := ".0"

/-- Digits with the point after the first `point` of them. -/
def positionalDigits (layout : Layout) (digits : List Char) (point : Int) : String :=
  if point ≤ 0 then
    String.ofList ('0' :: '.' :: List.replicate (-point).toNat '0' ++ digits)
  else if digits.length ≤ point.toNat then
    String.ofList (digits ++ List.replicate (point.toNat - digits.length) '0') ++
      layout.wholeSuffix
  else
    String.ofList (digits.take point.toNat ++ '.' :: digits.drop point.toNat)

def scientificDigits (digits : List Char) (place : Int) : String :=
  match digits with
  | [] => ""
  | first :: [] => String.ofList [first] ++ "e" ++ toString place
  | first :: rest => String.ofList (first :: '.' :: rest) ++ "e" ++ toString place

def magnitude (layout : Layout) (value : Binary) : String :=
  if value.significand = 0 then "0" ++ layout.wholeSuffix
  else
    let numeral := value.shortest layout.tie
    let digits := Nat.toDigits 10 numeral.digits
    let point := digits.length + numeral.exponent
    if layout.positional (point - 1) then layout.positionalDigits digits point
    else scientificDigits digits (point - 1)

def text (layout : Layout) (x : Float) : String :=
  match Reading.ofFloat x with
  | .nan => "NaN"
  | .infinite negative => if negative then "-inf" else "inf"
  | .finite value =>
    if value.negative then "-" ++ layout.magnitude value else layout.magnitude value

end Layout

def plain (x : Float) : String :=
  Layout.plain.text x

end MotionNotation.Decimal
