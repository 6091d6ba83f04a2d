import Likeness.Number.Decimal

/-!
# Likeness.Yaml.Value

YAML nodes as they are read, and what a plain scalar can stand for. A scalar keeps its text: what
it stands for depends on what is wanted of it, and a quoted scalar stands for its text only.
-/

namespace Likeness

/-- A YAML value. What a scalar stands for is left to its reader. -/
inductive Yaml where
  | scalar (plain : Bool) (text : String)
  | sequence (items : List Yaml)
  | mapping (entries : List (Yaml × Yaml))
deriving Inhabited

namespace Yaml

/-- The node of a place where nothing is written. -/
def empty : Yaml := .scalar true ""

/-! ### Plain scalars -/

/-- The words for nothing. -/
def isNullWord (text : String) : Bool := ["null", "Null", "NULL", "~"].contains text

/-- The words for truth values. -/
def boolean? (text : String) : Option Bool :=
  if ["true", "True", "TRUE"].contains text then some true
  else if ["false", "False", "FALSE"].contains text then some false
  else none

/-- The value of a digit up to `f`. -/
def digit? (c : Char) : Option Nat :=
  if '0' ≤ c ∧ c ≤ '9' then some (c.toNat - 48)
  else if 'a' ≤ c ∧ c ≤ 'f' then some (c.toNat - 87)
  else if 'A' ≤ c ∧ c ≤ 'F' then some (c.toNat - 55)
  else none

/-- Whether a character is a decimal digit. -/
def isDigit (c : Char) : Bool := '0' ≤ c && c ≤ '9'

/-- The number of digits in a base; there must be some. -/
def digits? (base : Nat) (cs : List Char) : Option Nat :=
  if cs = [] then none
  else cs.foldlM (fun n c => (digit? c).bind fun d => if d < base then some (base * n + d) else none) 0

/-- The digits in another base than ten, by the mark in front of them. -/
def marked? (cs : List Char) : Option Nat :=
  match cs with
  | '0' :: 'x' :: rest => digits? 16 rest
  | '0' :: 'o' :: rest => digits? 8 rest
  | '0' :: 'b' :: rest => digits? 2 rest
  | _ => none

/-- Digits after a leading zero are not a number. -/
def hasSpareZero (cs : List Char) : Bool :=
  match cs with
  | '0' :: rest => rest ≠ [] && rest.all isDigit
  | _ => false

/-- What follows a plus sign, if one stands in front. -/
def withoutPlus : List Char → List Char
  | '+' :: rest => rest
  | cs => cs

/-- A natural below a limit. -/
def natural? (limit : Nat) (text : String) : Option Nat := do
  let cs := withoutPlus text.toList
  let n ← marked? cs <|> (if hasSpareZero cs then none else digits? 10 cs)
  if n < limit then some n else none

/-- A negative integer that fits 128 bits. -/
def isNegativeInteger (text : String) : Bool :=
  match text.toList with
  | '-' :: cs =>
    match marked? cs <|> (if hasSpareZero cs then none else digits? 10 cs) with
    | some n => n ≤ Nat.pow 2 127
    | none => false
  | _ => false

/-- The exponent after `e`, which has a sign or none. -/
def exponent? (cs : List Char) : Option Int :=
  match cs with
  | [] => some 0
  | c :: rest =>
    if c = 'e' ∨ c = 'E' then
      match rest with
      | '-' :: ds => (digits? 10 ds).map fun n => -(n : Int)
      | ds => (digits? 10 (withoutPlus ds)).map fun n => (n : Int)
    else none

/-- A decimal with a point anywhere or none, and an exponent or none. -/
def decimal? (negative : Bool) (cs : List Char) : Option Binary64 := do
  let whole := cs.takeWhile isDigit
  let (fraction, rest) := match cs.dropWhile isDigit with
    | '.' :: rest => (rest.takeWhile isDigit, rest.dropWhile isDigit)
    | rest => ([], rest)
  let n ← digits? 10 (whole ++ fraction)
  return .ofDecimal negative n ((← exponent? rest) - fraction.length)

/-- A real number. Infinity and what is not a number have words of their own. -/
def real? (text : String) : Option Binary64 :=
  if [".inf", ".Inf", ".INF", "+.inf", "+.Inf", "+.INF"].contains text then some (.infinity false)
  else if ["-.inf", "-.Inf", "-.INF"].contains text then some (.infinity true)
  else if [".nan", ".NaN", ".NAN"].contains text then some .nan
  else
    let number := match text.toList with
      | '-' :: cs => decimal? true cs
      | cs => decimal? false (withoutPlus cs)
    number.filter Binary64.isFinite

end Yaml

end Likeness
