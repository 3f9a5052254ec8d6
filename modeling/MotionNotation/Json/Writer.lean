import MotionNotation.Decimal.Layout
import MotionNotation.Json.Basic

/-!
# Writing JSON

A tree is written without blanks, in the order of its members.
-/

namespace MotionNotation.Json

def hexPadded (code : Nat) : List Char :=
  [Nat.digitChar (code / 16), Nat.digitChar (code % 16)]

def escapedChar (c : Char) : List Char :=
  match c with
  | '"' => ['\\', '"']
  | '\\' => ['\\', '\\']
  | '\n' => ['\\', 'n']
  | '\r' => ['\\', 'r']
  | '\t' => ['\\', 't']
  | '\x08' => ['\\', 'b']
  | '\x0c' => ['\\', 'f']
  | c => if c.toNat < 0x20 then '\\' :: 'u' :: '0' :: '0' :: hexPadded c.toNat else [c]

def quoted (content : String) : String :=
  "\"" ++ String.ofList (content.toList.flatMap escapedChar) ++ "\""

def renderString (content : Option String) : String :=
  quoted (content.getD "")

/-- A float that is not finite has no JSON form and is written as `null`. -/
def Number.render : Number → String
  | integer value => toString value
  | real value => if value.isFinite then Decimal.Layout.document.text value else "null"

mutual

def render : Json → String
  | null => "null"
  | bool value => if value then "true" else "false"
  | number value => value.render
  | string content => renderString content
  | array items => "[" ++ String.intercalate "," (renderItems items) ++ "]"
  | object members => "\x7b" ++ String.intercalate "," (renderMembers members) ++ "\x7d"

def renderItems : List Json → List String
  | [] => []
  | item :: rest => item.render :: renderItems rest

def renderMembers : List (Option String × Json) → List String
  | [] => []
  | (name, value) :: rest => (renderString name ++ ":" ++ value.render) :: renderMembers rest

end

end MotionNotation.Json
