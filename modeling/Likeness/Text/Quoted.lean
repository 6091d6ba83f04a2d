import Likeness.Text.Unprintable

/-!
# Likeness.Text.Quoted

Quoted text for messages: what cannot be seen is escaped.
-/

namespace Likeness.Text

/-- The digits of a code point in base sixteen, as few as possible. -/
def codePoint (n : Nat) : String := String.ofList (Nat.toDigits 16 n)

/-- A character between double quotes, escaped if it cannot be shown. -/
def showChar (c : Char) : String :=
  match c with
  | '"' => "\\\""
  | '\\' => "\\\\"
  | '\n' => "\\n"
  | '\r' => "\\r"
  | '\t' => "\\t"
  | '\x00' => "\\0"
  | _ => if isUnprintable c then "\\u\x7b" ++ codePoint c.toNat ++ "\x7d" else String.singleton c

/-- A text between double quotes. -/
def quoted (s : String) : String := "\"" ++ String.join (s.toList.map showChar) ++ "\""

end Likeness.Text
