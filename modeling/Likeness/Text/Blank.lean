/-!
# Likeness.Text.Blank

White space and its removal.
-/

namespace Likeness.Text

/-- The white space characters, of all scripts. -/
def isSpace (c : Char) : Bool :=
  c.isWhitespace || c.toNat = 0x0b || c.toNat = 0x0c || c.toNat = 0x85 || c.toNat = 0xa0 ||
    c.toNat = 0x1680 || (0x2000 ≤ c.toNat && c.toNat ≤ 0x200a) || c.toNat = 0x2028 ||
    c.toNat = 0x2029 || c.toNat = 0x202f || c.toNat = 0x205f || c.toNat = 0x3000

/-- The text from its first character that is not white space. -/
def trimStart (cs : List Char) : List Char := cs.dropWhile isSpace

/-- The text without white space at its front and its end. -/
def trim (cs : List Char) : List Char := (trimStart (trimStart cs).reverse).reverse

end Likeness.Text
