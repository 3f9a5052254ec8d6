/-!
# JSON trees

Trees of JSON values.  Objects keep their members in order, repeated names
included, and it is left to the reader of a record what to make of them.
-/

namespace MotionNotation

namespace Json

inductive Number where
  | integer (value : Int)
  | real (value : Float)
  deriving DecidableEq, Repr

end Json

/-- The content of a string is missing if an escape in it names half of a
surrogate pair alone: such a string is well formed but has no characters. -/
inductive Json where
  | null
  | bool (value : Bool)
  | number (value : Json.Number)
  | string (content : Option String)
  | array (items : List Json)
  | object (members : List (Option String × Json))
  deriving Repr, Inhabited

namespace Json

def text (content : String) : Json :=
  string (some content)

def fields (members : List (String × Json)) : Json :=
  object (members.map fun member => (some member.1, member.2))

def natural (value : Nat) : Json :=
  number (.integer value)

def real (value : Float) : Json :=
  number (.real value)

def member? (json : Json) (name : String) : Option Json :=
  match json with
  | object members => members.lookup (some name)
  | _ => none

/-! ## Values that can be kept -/

mutual

/-- How many containers lie around the innermost value, itself included. -/
def depth : Json → Nat
  | array items => depthOfItems items + 1
  | object members => depthOfMembers members + 1
  | _ => 0

def depthOfItems : List Json → Nat
  | [] => 0
  | item :: rest => max item.depth (depthOfItems rest)

def depthOfMembers : List (Option String × Json) → Nat
  | [] => 0
  | (_, value) :: rest => max value.depth (depthOfMembers rest)

end

mutual

def isSound : Json → Bool
  | number (.real value) => value.isFinite
  | string content => content.isSome
  | array items => areSound items
  | object members => membersAreSound members
  | _ => true

def areSound : List Json → Bool
  | [] => true
  | item :: rest => item.isSound && areSound rest

def membersAreSound : List (Option String × Json) → Bool
  | [] => true
  | (name, value) :: rest => name.isSome && value.isSound && membersAreSound rest

end

end Json

end MotionNotation
