import MotionNotation.Text.Hidden

/-!
# Quoted texts

A text between double quotes for a reader of messages: quotes and backslashes
are escaped, and hidden characters are written by their code.
-/

namespace MotionNotation.Text

def codeEscape (c : Char) : List Char :=
  '\\' :: 'u' :: '\x7b' :: Nat.toDigits 16 c.toNat ++ ['\x7d']

def quotedChar (c : Char) : List Char :=
  match c with
  | '\x00' => ['\\', '0']
  | '\t' => ['\\', 't']
  | '\r' => ['\\', 'r']
  | '\n' => ['\\', 'n']
  | '\\' => ['\\', '\\']
  | '"' => ['\\', '"']
  | c => if isHidden c then codeEscape c else [c]

def quoted (text : String) : String :=
  "\"" ++ String.ofList (text.toList.flatMap quotedChar) ++ "\""

end MotionNotation.Text
