/-!
# Blanks

The characters with the Unicode property of being white space, and trimming.
-/

namespace MotionNotation.Text

def isBlank (c : Char) : Bool :=
  let code := c.toNat
  decide (9 ≤ code ∧ code ≤ 13) || code == 0x20 || code == 0x85 || code == 0xA0 ||
    code == 0x1680 || decide (0x2000 ≤ code ∧ code ≤ 0x200A) || code == 0x2028 ||
    code == 0x2029 || code == 0x202F || code == 0x205F || code == 0x3000

def trim (text : List Char) : List Char :=
  ((text.dropWhile isBlank).reverse.dropWhile isBlank).reverse

def allBlank (text : List Char) : Bool :=
  text.all isBlank

end MotionNotation.Text
