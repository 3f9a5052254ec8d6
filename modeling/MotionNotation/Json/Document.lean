import MotionNotation.Json.Basic

/-!
# Documents

A type with a JSON form: `encode` writes it and `decode?` reads it back.  A
record is read from an object, in any order and with unknown members left out,
or from an array of its fields in their order.
-/

namespace MotionNotation

class Document (α : Type) where
  encode : α → Json
  decode? : Json → Option α

namespace Json

def natural? (bits : Nat) : Json → Option Nat
  | number (.integer value) =>
    if 0 ≤ value ∧ value.toNat < Nat.pow 2 bits then some value.toNat else none
  | _ => none

@[simp] theorem natural?_natural {bits value : Nat} (h : value < Nat.pow 2 bits) :
    natural? bits (natural value) = some value := by
  simp only [natural?, natural, Int.toNat_natCast]
  rw [if_pos ⟨Int.natCast_nonneg value, h⟩]

/-! ## Records -/

def membersNamed (members : List (Option String × Json)) (name : String) : List Json :=
  (members.filter fun member => member.1 == some name).map Prod.snd

def uniqueMember (members : List (Option String × Json)) (name : String) : Option (Option Json) :=
  match membersNamed members name with
  | [] => some none
  | [value] => some (some value)
  | _ => none

/-- The fields of a record, each with its value if there is one.  Refused are a
repeated field, a name without characters, and more items than fields. -/
def record? (names : List String) : Json → Option (List (Option Json))
  | object members =>
    if members.all fun member => member.1.isSome then names.mapM (uniqueMember members) else none
  | array items =>
    if items.length ≤ names.length then
      some (items.map some ++ List.replicate (names.length - items.length) none)
    else none
  | _ => none

def variant? : Json → Option (String × Option Json)
  | string (some name) => some (name, none)
  | object [(some name, content)] => some (name, some content)
  | _ => none

/-- The name of a variant without content; in the longer form its content is
`null`. -/
def unitVariant? (json : Json) : Option String :=
  match variant? json with
  | some (name, none) => some name
  | some (name, some null) => some name
  | _ => none

end Json

namespace Document

variable {α : Type} [Document α]

def required : Option Json → Option α
  | some json => decode? json
  | none => none

def optional (default : α) : Option Json → Option α
  | some json => decode? json
  | none => some default

instance : Document Bool where
  encode := .bool
  decode?
    | .bool value => some value
    | _ => none

instance : Document String where
  encode := .text
  decode?
    | .string content => content
    | _ => none

/-- Integers are floats too, rounded to the nearest. -/
instance : Document Float where
  encode := .real
  decode?
    | .number (.real value) => if value.isFinite then some value else none
    | .number (.integer value) =>
      some (if value < 0 then -Float.ofNat value.natAbs else Float.ofNat value.natAbs)
    | _ => none

instance : Document Nat where
  encode := .natural
  decode? := Json.natural? 64

instance : Document (Option α) where
  encode
    | some value => encode value
    | none => .null
  decode?
    | .null => some none
    | json => (decode? json).map some

instance : Document (List α) where
  encode items := .array (items.map encode)
  decode?
    | .array items => items.mapM decode?
    | _ => none

end Document

end MotionNotation
