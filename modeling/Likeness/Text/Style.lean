/-!
# Likeness.Text.Style

Text styled for terminals. A style is switched on in front of a text and off behind it.
-/

namespace Likeness.Text

/-- The colours in use. -/
inductive Colour where
  | red
  | yellow
  | cyan
  | brightRed
  | brightGreen
  | brightBlue
  | brightWhite
deriving DecidableEq

namespace Colour

/-- The number that a terminal knows a colour by. -/
def code : Colour → Nat
  | red => 31
  | yellow => 33
  | cyan => 36
  | brightRed => 91
  | brightGreen => 92
  | brightBlue => 94
  | brightWhite => 97

end Colour

/-- Puts a text between two style codes. -/
def styled (on off : Nat) (text : String) : String :=
  "\x1b[" ++ toString on ++ "m" ++ text ++ "\x1b[" ++ toString off ++ "m"

/-- A text in a colour. -/
def coloured (c : Colour) : String → String := styled c.code 39

/-- A text in bold. -/
def bold : String → String := styled 1 0

/-- A text in the background. -/
def dimmed : String → String := styled 2 0

/-- A heading: bold, in a colour. -/
def heading (c : Colour) (text : String) : String := bold (coloured c text)

end Likeness.Text
