import Likeness.Number.Decimal
import Likeness.Ordered

/-!
# Likeness.Json.Value

JSON values and their text. Members of an object keep their order, and so do repeated names. Text
is written in front of a given rest, so that writing is linear and a statement about reading back
what was written can speak of whatever follows it.
-/

namespace Likeness

namespace Json

/-- Integers stay apart from other numbers: they are written and read without a fraction. -/
inductive Number where
  | integer (i : Int)
  | real (x : Binary64)
deriving DecidableEq, Inhabited

/-- Integers outside this range are read as reals. -/
def Number.inRange (i : Int) : Bool := -0x8000000000000000 ≤ i && i < 0x10000000000000000

end Json

/-- A JSON value. -/
inductive Json where
  | null
  | bool (b : Bool)
  | number (n : Json.Number)
  | string (s : String)
  | array (items : List Json)
  | object (members : List (String × Json))
deriving Inhabited

namespace Json

/-! ### Making values -/

/-- An integer. -/
def int (i : Int) : Json := .number (.integer i)

/-- A natural number. -/
def nat (n : Nat) : Json := .number (.integer n)

/-- A number; what is not finite has no text and becomes null. -/
def real (x : Binary64) : Json := if x.isFinite then .number (.real x) else .null

/-- The list of some values. -/
def list (f : α → Json) (xs : List α) : Json := .array (xs.map f)

/-- A value, or null for nothing. -/
def option (f : α → Json) : Option α → Json
  | none => .null
  | some a => f a

/-! ### Text of the leaves -/

/-- Numbers in JSON text. -/
def layout : Binary64.Layout := ⟨"+", "null", "null"⟩

/-- A number as it is written. -/
def Number.text : Number → String
  | .integer i => toString i
  | .real x => x.write layout

/-- A character inside a quoted string. Only what must be escaped is. -/
def escape (c : Char) : List Char :=
  match c with
  | '"' => ['\\', '"']
  | '\\' => ['\\', '\\']
  | '\n' => ['\\', 'n']
  | '\r' => ['\\', 'r']
  | '\t' => ['\\', 't']
  | _ =>
    if c.toNat = 8 then ['\\', 'b']
    else if c.toNat = 12 then ['\\', 'f']
    else if c.toNat < 32 then '\\' :: 'u' :: (hexDigits c.toNat)
    else [c]
where
  hexDigits (n : Nat) : List Char :=
    ['0', '0', Nat.digitChar (n / 16), Nat.digitChar (n % 16)]

/-- A string between quotes, in front of `rest`. -/
def quote (s : String) (rest : List Char) : List Char :=
  '"' :: s.toList.flatMap escape ++ '"' :: rest

/-! ### Compact text -/

mutual

/-- A value in front of `rest`, without blanks. -/
def write : Json → List Char → List Char
  | .null, rest => "null".toList ++ rest
  | .bool true, rest => "true".toList ++ rest
  | .bool false, rest => "false".toList ++ rest
  | .number n, rest => n.text.toList ++ rest
  | .string s, rest => quote s rest
  | .array [], rest => '[' :: ']' :: rest
  | .array (j :: js), rest => '[' :: j.write (writeItems js (']' :: rest))
  | .object [], rest => '{' :: '}' :: rest
  | .object ((k, j) :: ms), rest =>
    '{' :: quote k (':' :: j.write (writeMembers ms ('}' :: rest)))

/-- The items after the first. -/
def writeItems : List Json → List Char → List Char
  | [], rest => rest
  | j :: js, rest => ',' :: j.write (writeItems js rest)

/-- The members after the first. -/
def writeMembers : List (String × Json) → List Char → List Char
  | [], rest => rest
  | (k, j) :: ms, rest => ',' :: quote k (':' :: j.write (writeMembers ms rest))

end

/-- The compact text of a value. -/
def text (j : Json) : String := String.ofList (j.write [])

/-! ### Indented text -/

/-- A line break and two blanks for each level. -/
def newline (level : Nat) (rest : List Char) : List Char :=
  '\n' :: List.replicate (2 * level) ' ' ++ rest

mutual

/-- A value at a level in front of `rest`, with each item and each member in a line of its own. -/
def writeIndented (level : Nat) : Json → List Char → List Char
  | .null, rest => "null".toList ++ rest
  | .bool true, rest => "true".toList ++ rest
  | .bool false, rest => "false".toList ++ rest
  | .number n, rest => n.text.toList ++ rest
  | .string s, rest => quote s rest
  | .array [], rest => '[' :: ']' :: rest
  | .array (j :: js), rest =>
    '[' :: newline (level + 1) (j.writeIndented (level + 1)
      (writeIndentedItems level js (newline level (']' :: rest))))
  | .object [], rest => '{' :: '}' :: rest
  | .object ((k, j) :: ms), rest =>
    '{' :: newline (level + 1) (quote k (':' :: ' ' :: j.writeIndented (level + 1)
      (writeIndentedMembers level ms (newline level ('}' :: rest)))))

/-- The items after the first of an array at a level. -/
def writeIndentedItems (level : Nat) : List Json → List Char → List Char
  | [], rest => rest
  | j :: js, rest =>
    ',' :: newline (level + 1) (j.writeIndented (level + 1) (writeIndentedItems level js rest))

/-- The members after the first of an object at a level. -/
def writeIndentedMembers (level : Nat) : List (String × Json) → List Char → List Char
  | [], rest => rest
  | (k, j) :: ms, rest =>
    ',' :: newline (level + 1) (quote k (':' :: ' ' :: j.writeIndented (level + 1)
      (writeIndentedMembers level ms rest)))

end

/-- The text of a value on several lines, with two blanks a level. -/
def indented (j : Json) : String := String.ofList (j.writeIndented 0 [])

/-! ### Order of members -/

mutual

/-- The value with the members of every object in the order of their names. -/
def byName : Json → Json
  | .array items => .array (itemsByName items)
  | .object members => .object (Ordered.ofList (fun a b => a.1 < b.1) (membersByName members))
  | j => j

def itemsByName : List Json → List Json
  | [] => []
  | j :: js => j.byName :: itemsByName js

def membersByName : List (String × Json) → List (String × Json)
  | [] => []
  | (k, j) :: ms => (k, j.byName) :: membersByName ms

end

end Json

end Likeness
