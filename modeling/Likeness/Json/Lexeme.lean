import Likeness.Json.Value
import Likeness.Json.Fault

/-!
# Likeness.Json.Lexeme

Strings, numbers and words of JSON text. Each is read in two ways: strictly, for its value, and
leniently, to pass over it. The lenient way does not look at what an escape stands for or at the
size of a number, so it gets past some lexemes that the strict way refuses.
-/

namespace Likeness.Json

/-- Blanks between lexemes. -/
def isBlank (c : Char) : Bool := c = ' ' || c = '\n' || c = '\t' || c = '\r'

/-- What follows the blanks. -/
def skipBlanks (cs : List Char) : List Char := cs.dropWhile isBlank

/-! ### Strings -/

/-- The value of a hexadecimal digit of either case. -/
def hexValue? (c : Char) : Option Nat :=
  if '0' ≤ c ∧ c ≤ '9' then some (c.toNat - 48)
  else if 'a' ≤ c ∧ c ≤ 'f' then some (c.toNat - 87)
  else if 'A' ≤ c ∧ c ≤ 'F' then some (c.toNat - 55)
  else none

/-- The code unit of four hexadecimal digits. -/
def hexUnit? (a b c d : Char) : Option Nat := do
  return (← hexValue? a) * 4096 + (← hexValue? b) * 256 + (← hexValue? c) * 16 + (← hexValue? d)

/-- What is wrong with text that does not start with four hexadecimal digits. -/
def unitFault (cs : List Char) : Fault :=
  -- Four bytes are looked at together, and text that is shorter than that has come to its end.
  let bytes := (cs.take 4).foldl (fun n c => n + c.utf8Size) 0
  if 4 ≤ bytes then .invalidEscape else .endInString

/-- The character of a one-letter escape. -/
def escaped? (c : Char) : Option Char :=
  match c with
  | '"' => some '"'
  | '\\' => some '\\'
  | '/' => some '/'
  | 'b' => some '\x08'
  | 'f' => some '\x0c'
  | 'n' => some '\n'
  | 'r' => some '\r'
  | 't' => some '\t'
  | _ => none

/-- Whether a code unit is the first of a pair of surrogates. -/
def isLeading (unit : Nat) : Bool := 0xd800 ≤ unit && unit ≤ 0xdbff

/-- Whether a code unit is the second of a pair of surrogates. -/
def isTrailing (unit : Nat) : Bool := 0xdc00 ≤ unit && unit ≤ 0xdfff

/-- The character that a pair of surrogates stands for. -/
def pairChar (leading trailing : Nat) : Char :=
  Char.ofNat ((leading - 0xd800) * 1024 + (trailing - 0xdc00) + 0x10000)

/-- What is wrong after a leading surrogate that no trailing one follows. -/
def pairFault (cs : List Char) : Fault :=
  match cs with
  | [] => .endInString
  | '\\' :: [] => .endInString
  | '\\' :: 'u' :: rest =>
    match rest with
    | a :: b :: c :: d :: _ =>
      if (hexUnit? a b c d).isSome then .loneSurrogate else unitFault rest
    | _ => unitFault rest
  | _ => .escapeCutShort

/-- The content of a string, after its opening quote, and what follows the closing one. -/
def readString : List Char → Except Fault (List Char × List Char)
  | [] => .error .endInString
  | '"' :: rest => .ok ([], rest)
  | '\\' :: 'u' :: a :: b :: c :: d :: rest =>
    match hexUnit? a b c d with
    | none => .error (unitFault (a :: b :: c :: d :: rest))
    | some unit =>
      if isTrailing unit then .error .loneSurrogate
      else if isLeading unit then
        match rest with
        | '\\' :: 'u' :: e :: f :: g :: h :: rest' =>
          match hexUnit? e f g h with
          | none => .error (pairFault rest)
          | some second =>
            if isTrailing second then do
              let (s, after) ← readString rest'
              return (pairChar unit second :: s, after)
            else .error .loneSurrogate
        | _ => .error (pairFault rest)
      else do
        let (s, after) ← readString rest
        return (Char.ofNat unit :: s, after)
  | '\\' :: 'u' :: rest => .error (unitFault rest)
  | '\\' :: c :: rest =>
    match escaped? c with
    | none => .error .invalidEscape
    | some e => do
      let (s, after) ← readString rest
      return (e :: s, after)
  | '\\' :: [] => .error .endInString
  | c :: rest =>
    if c.toNat < 32 then .error .controlCharacter
    else do
      let (s, after) ← readString rest
      return (c :: s, after)

/-- What follows a string, after its opening quote. -/
def skipString : List Char → Except Fault (List Char)
  | [] => .error .endInString
  | '"' :: rest => .ok rest
  | '\\' :: 'u' :: a :: b :: c :: d :: rest =>
    if (hexUnit? a b c d).isSome then skipString rest
    else .error (unitFault (a :: b :: c :: d :: rest))
  | '\\' :: 'u' :: rest => .error (unitFault rest)
  | '\\' :: c :: rest =>
    if (escaped? c).isSome then skipString rest else .error .invalidEscape
  | '\\' :: [] => .error .endInString
  | c :: rest => if c.toNat < 32 then .error .controlCharacter else skipString rest

/-! ### Numbers -/

/-- Whether a character is a decimal digit. -/
def isDigit (c : Char) : Bool := '0' ≤ c && c ≤ '9'

/-- The number of decimal digits. -/
def digitsValue (cs : List Char) : Nat := cs.foldl (fun n c => 10 * n + (c.toNat - 48)) 0

/-- The parts of a number as it is written. -/
structure NumberText where
  negative : Bool
  whole : List Char
  /-- Digits after the point, if there is one. -/
  fraction : Option (List Char)
  /-- Sign and digits of the exponent, if there is one. -/
  exponent : Option (Bool × List Char)

/-- The fault of missing digits, `atEnd` when the text stops there. -/
def missingDigits (atEnd : Fault) (cs : List Char) : Fault :=
  if cs = [] then atEnd else .invalidNumber

/-- The exponent part, if one follows. -/
def lexExponent (atEnd : Fault) : List Char →
    Except Fault (Option (Bool × List Char) × List Char)
  | c :: rest =>
    if c = 'e' ∨ c = 'E' then
      let (negative, rest) := match rest with
        | '+' :: r => (false, r)
        | '-' :: r => (true, r)
        | r => (false, r)
      let digits := rest.takeWhile isDigit
      if digits = [] then .error (missingDigits atEnd rest)
      else .ok (some (negative, digits), rest.dropWhile isDigit)
    else .ok (none, c :: rest)
  | [] => .ok (none, [])

/-- The fraction part, if one follows. -/
def lexFraction (atEnd : Fault) : List Char → Except Fault (Option (List Char) × List Char)
  | '.' :: rest =>
    let digits := rest.takeWhile isDigit
    if digits = [] then .error (missingDigits atEnd rest)
    else .ok (some digits, rest.dropWhile isDigit)
  | cs => .ok (none, cs)

/-- The parts of the number at the head of the text. -/
def lexNumber (atEnd : Fault) (cs : List Char) : Except Fault (NumberText × List Char) := do
  let (negative, cs) := match cs with
    | '-' :: rest => (true, rest)
    | cs => (false, cs)
  let whole := cs.takeWhile isDigit
  if whole = [] then throw (missingDigits atEnd cs)
  if whole.head? = some '0' ∧ 1 < whole.length then throw .invalidNumber
  let (fraction, cs) ← lexFraction atEnd (cs.dropWhile isDigit)
  let (exponent, cs) ← lexExponent atEnd cs
  return (⟨negative, whole, fraction, exponent⟩, cs)

namespace NumberText

/-- The nearest real to what is written. -/
def toReal (t : NumberText) : Binary64 :=
  let fraction := t.fraction.getD []
  let exponent : Int := match t.exponent with
    | none => 0
    | some (negative, digits) =>
      if negative then -(digitsValue digits : Int) else digitsValue digits
  .ofDecimal t.negative (digitsValue (t.whole ++ fraction)) (exponent - fraction.length)

/-- An integer if it is written as one and is in range; minus zero is not. -/
def toInteger? (t : NumberText) : Option Int :=
  if t.fraction.isSome ∨ t.exponent.isSome then none
  else
    let n := digitsValue t.whole
    let i : Int := if t.negative then -n else n
    if Number.inRange i ∧ ¬(t.negative ∧ n = 0) then some i else none

/-- The number that is written; beyond the range of integers it is a real. -/
def value (t : NumberText) : Except Fault Number :=
  match t.toInteger? with
  | some i => .ok (.integer i)
  | none => if t.toReal.isFinite then .ok (.real t.toReal) else .error .outOfRange

end NumberText

/-- Reads a number for its value. -/
def readNumber (cs : List Char) : Except Fault (Number × List Char) := do
  let (t, rest) ← lexNumber .endInValue cs
  return (← t.value, rest)

/-- Passes over a number, however large it is. -/
def skipNumber (cs : List Char) : Except Fault (List Char) := do
  let (_, rest) ← lexNumber .invalidNumber cs
  return rest

/-! ### Words -/

/-- What follows the rest of a word whose first letter has been seen. -/
def readWord : (word : List Char) → List Char → Except Fault (List Char)
  | [], cs => .ok cs
  | _ :: _, [] => .error .endInValue
  | w :: ws, c :: cs => if w = c then readWord ws cs else .error .expectedWord

end Likeness.Json
