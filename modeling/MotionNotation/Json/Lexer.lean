import MotionNotation.Json.Numeral

/-!
# JSON tokens

The characters of a document are read one by one into tokens.  A bare word is as
long as it can be; it is `true`, `false`, `null` or a number.
-/

namespace MotionNotation.Json

inductive Token where
  | openArray
  | closeArray
  | openObject
  | closeObject
  | colon
  | comma
  | string (content : Option String)
  | scalar (value : Json)
  deriving Repr

/-- What the lexer is inside of.  Words and strings are collected in reverse; a
string is collected in code units, since an escape may name half of a pair. -/
inductive LexerMode where
  | between
  | word (letters : List Char)
  | string (units : List Nat)
  | escape (units : List Nat)
  | code (units : List Nat) (missing : Nat) (value : Nat)
  deriving DecidableEq, Repr

structure Lexer where
  mode : LexerMode
  tokens : List Token

namespace Lexer

def start : Lexer :=
  ⟨.between, []⟩

/-! ## Code units -/

def isHigh (unit : Nat) : Bool :=
  decide (0xD800 ≤ unit ∧ unit < 0xDC00)

def isLow (unit : Nat) : Bool :=
  decide (0xDC00 ≤ unit ∧ unit < 0xE000)

def pair (high low : Nat) : Char :=
  Char.ofNat (0x10000 + (high - 0xD800) * 0x400 + (low - 0xDC00))

/-- Joins surrogate pairs; half a pair has no character. -/
def joinUnits : List Nat → Option (List Char)
  | [] => some []
  | high :: low :: rest =>
    if isHigh high then
      if isLow low then (joinUnits rest).map (pair high low :: ·) else none
    else if isLow high then none
    else (joinUnits (low :: rest)).map (Char.ofNat high :: ·)
  | [unit] => if isHigh unit || isLow unit then none else some [Char.ofNat unit]

def content (units : List Nat) : Option String :=
  (joinUnits units.reverse).map String.ofList

def hexValue? (c : Char) : Option Nat :=
  if c.isDigit then some (c.toNat - '0'.toNat)
  else if 'a' ≤ c ∧ c ≤ 'f' then some (c.toNat - 'a'.toNat + 10)
  else if 'A' ≤ c ∧ c ≤ 'F' then some (c.toNat - 'A'.toNat + 10)
  else none

def escapeUnit? : Char → Option Nat
  | '"' => some 0x22
  | '\\' => some 0x5C
  | '/' => some 0x2F
  | 'b' => some 0x08
  | 'f' => some 0x0C
  | 'n' => some 0x0A
  | 'r' => some 0x0D
  | 't' => some 0x09
  | _ => none

/-! ## Words -/

def isWordChar (c : Char) : Bool :=
  c.isAlphanum || c == '+' || c == '-' || c == '.'

def wordValue? (word : List Char) : Option Json :=
  if word = ['n', 'u', 'l', 'l'] then some .null
  else if word = ['t', 'r', 'u', 'e'] then some (.bool true)
  else if word = ['f', 'a', 'l', 's', 'e'] then some (.bool false)
  else (Numeral.ofChars? word).map fun numeral => .number numeral.toNumber

/-! ## Steps -/

def isSpace (c : Char) : Bool :=
  c == ' ' || c == '\t' || c == '\n' || c == '\r'

def punctuation? : Char → Option Token
  | '[' => some .openArray
  | ']' => some .closeArray
  | '\x7b' => some .openObject
  | '\x7d' => some .closeObject
  | ':' => some .colon
  | ',' => some .comma
  | _ => none

def stepBetween (tokens : List Token) (c : Char) : Option Lexer :=
  if isSpace c then some ⟨.between, tokens⟩
  else if c = '"' then some ⟨.string [], tokens⟩
  else
    match punctuation? c with
    | some token => some ⟨.between, token :: tokens⟩
    | none => if isWordChar c then some ⟨.word [c], tokens⟩ else none

def closeWord (tokens : List Token) (letters : List Char) : Option (List Token) :=
  (wordValue? letters.reverse).map fun value => .scalar value :: tokens

def step (lexer : Lexer) (c : Char) : Option Lexer :=
  match lexer.mode with
  | .between => stepBetween lexer.tokens c
  | .word letters =>
    if isWordChar c then some ⟨.word (c :: letters), lexer.tokens⟩
    else (closeWord lexer.tokens letters).bind fun tokens => stepBetween tokens c
  | .string units =>
    if c = '"' then some ⟨.between, .string (content units) :: lexer.tokens⟩
    else if c = '\\' then some ⟨.escape units, lexer.tokens⟩
    else if c.toNat < 0x20 then none
    else some ⟨.string (c.toNat :: units), lexer.tokens⟩
  | .escape units =>
    if c = 'u' then some ⟨.code units 4 0, lexer.tokens⟩
    else (escapeUnit? c).map fun unit => ⟨.string (unit :: units), lexer.tokens⟩
  | .code units missing value =>
    (hexValue? c).map fun digit =>
      let value := value * 16 + digit
      if missing ≤ 1 then ⟨.string (value :: units), lexer.tokens⟩
      else ⟨.code units (missing - 1) value, lexer.tokens⟩

def finish (lexer : Lexer) : Option (List Token) :=
  match lexer.mode with
  | .between => some lexer.tokens.reverse
  | .word letters => (closeWord lexer.tokens letters).map List.reverse
  | .string _ | .escape _ | .code .. => none

end Lexer

def tokens? (text : String) : Option (List Token) :=
  (text.toList.foldlM Lexer.step Lexer.start).bind Lexer.finish

end MotionNotation.Json
