import MotionNotation.Json.Lexer

/-!
# Reading JSON

Tokens are put together into one tree by a machine that keeps the open
containers on a stack.
-/

namespace MotionNotation.Json

/-- An open container with what it holds so far, the last entry first. -/
inductive Frame where
  | items (done : List Json)
  | members (done : List (Option String × Json)) (name : Option String)
  deriving Repr

inductive Expected where
  | value
  | itemOrEnd
  | name (done : List (Option String × Json))
  | nameOrEnd
  | colon (done : List (Option String × Json)) (name : Option String)
  | after (value : Json)
  deriving Repr

structure Builder where
  expected : Expected
  stack : List Frame
  deriving Repr

namespace Builder

def start : Builder :=
  ⟨.value, []⟩

def beginValue (stack : List Frame) : Token → Option Builder
  | .openArray => some ⟨.itemOrEnd, stack⟩
  | .openObject => some ⟨.nameOrEnd, stack⟩
  | .string content => some ⟨.after (.string content), stack⟩
  | .scalar value => some ⟨.after value, stack⟩
  | .closeArray | .closeObject | .colon | .comma => none

def afterValue (value : Json) (stack : List Frame) (token : Token) : Option Builder :=
  match stack, token with
  | .items done :: outer, .comma => some ⟨.value, .items (value :: done) :: outer⟩
  | .items done :: outer, .closeArray =>
    some ⟨.after (.array (value :: done).reverse), outer⟩
  | .members done name :: outer, .comma => some ⟨.name ((name, value) :: done), outer⟩
  | .members done name :: outer, .closeObject =>
    some ⟨.after (.object ((name, value) :: done).reverse), outer⟩
  | _, _ => none

def step (builder : Builder) (token : Token) : Option Builder :=
  match builder.expected, token with
  | .value, token => beginValue builder.stack token
  | .itemOrEnd, .closeArray => some ⟨.after (.array []), builder.stack⟩
  | .itemOrEnd, token => beginValue (.items [] :: builder.stack) token
  | .name done, .string content => some ⟨.colon done content, builder.stack⟩
  | .nameOrEnd, .string content => some ⟨.colon [] content, builder.stack⟩
  | .nameOrEnd, .closeObject => some ⟨.after (.object []), builder.stack⟩
  | .colon done name, .colon => some ⟨.value, .members done name :: builder.stack⟩
  | .after value, token => afterValue value builder.stack token
  | _, _ => none

def finish (builder : Builder) : Option Json :=
  match builder.expected, builder.stack with
  | .after value, [] => some value
  | _, _ => none

end Builder

def ofText? (text : String) : Option Json :=
  (tokens? text).bind fun tokens =>
    (tokens.foldlM Builder.step Builder.start).bind Builder.finish

end MotionNotation.Json
