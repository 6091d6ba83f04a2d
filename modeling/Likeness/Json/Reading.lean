import Likeness.Json.Lexeme

/-!
# Likeness.Json.Reading

What JSON text gives when it is read from left to right.

Text may be faulty, and a reader who knows what to expect stops at the first thing that is not as
it should be, whether that is the text or the value. So a text is first turned into a *reading*: the
tree of values up to the first fault, with the fault at the place where it is met. A reading can be
used or passed over, and the fault met by either way is part of it.
-/

namespace Likeness.Json

/-- How a list or an object fails to go on after what has been read of it. -/
inductive Break where
  /-- The text ends where an item, a comma or the closing bracket should stand. -/
  | ended
  /-- The text ends after a comma. -/
  | endedAfterComma
  /-- The closing bracket follows a comma. -/
  | danglingComma
  /-- Something else stands where a comma should. -/
  | noComma
deriving DecidableEq

mutual

/-- A value as far as it could be read. -/
inductive Reading where
  | null
  | bool (b : Bool)
  | number (n : Number)
  | string (s : String)
  | array (items : Items)
  | object (members : Members)
  /-- Using the value meets the first fault; passing over it meets the second, if any. -/
  | flawed (used : Fault) (passed : Option Fault)

/-- The items of a list up to its end, or to a fault between them. -/
inductive Items where
  | close
  | broken (how : Break)
  | item (head : Reading) (tail : Items)

/-- The members of an object up to its end, or to a fault between them. A key may be at fault
itself, and the object is read on behind it. -/
inductive Members where
  | close
  | broken (used passed : Fault)
  | member (key : Except Fault String) (value : Reading) (tail : Members)

end

/-! ### Faults of a reading -/

namespace Break

/-- Met when the list is used. -/
def used : Break → Fault
  | .ended => .endInList
  | .endedAfterComma => .endInValue
  | .danglingComma => .trailingComma
  | .noComma => .expectedListComma

/-- Met when the list is passed over. -/
def passed : Break → Fault
  | .ended => .endInList
  | .endedAfterComma => .endInValue
  | .danglingComma => .expectedValue
  | .noComma => .expectedListComma

/-- Met where nothing but the closing bracket is expected. -/
def closing : Break → Fault
  | .ended => .endInList
  | .endedAfterComma => .trailingCharacters
  | .danglingComma => .trailingComma
  | .noComma => .trailingCharacters

end Break

mutual

/-- The fault met when a value is passed over. -/
def Reading.passed? : Reading → Option Fault
  | .array items => items.passed?
  | .object members => members.passed?
  | .flawed _ passed => passed
  | _ => none

def Items.passed? : Items → Option Fault
  | .close => none
  | .broken how => some how.passed
  | .item head tail => head.passed?.or tail.passed?

def Members.passed? : Members → Option Fault
  | .close => none
  | .broken _ passed => some passed
  | .member _ value tail => value.passed?.or tail.passed?

end

/-! ### Whole values -/

mutual

/-- The value of a reading, or the first fault in it. -/
def Reading.settle : Reading → Except Fault Json
  | .null => .ok .null
  | .bool b => .ok (.bool b)
  | .number n => .ok (.number n)
  | .string s => .ok (.string s)
  | .array items => return .array (← items.settle)
  | .object members => return .object (← members.settle)
  | .flawed used _ => .error used

def Items.settle : Items → Except Fault (List Json)
  | .close => .ok []
  | .broken how => .error how.used
  | .item head tail => do
    let j ← head.settle
    return j :: (← tail.settle)

def Members.settle : Members → Except Fault (List (String × Json))
  | .close => .ok []
  | .broken used _ => .error used
  | .member key value tail => do
    let k ← key
    let j ← value.settle
    return (k, j) :: (← tail.settle)

end

mutual

/-- The reading of a value that is already there. -/
def reading : Json → Reading
  | .null => .null
  | .bool b => .bool b
  | .number n => .number n
  | .string s => .string s
  | .array items => .array (itemsReading items)
  | .object members => .object (membersReading members)

def itemsReading : List Json → Items
  | [] => .close
  | j :: js => .item j.reading (itemsReading js)

def membersReading : List (String × Json) → Members
  | [] => .close
  | (k, j) :: ms => .member (.ok k) j.reading (membersReading ms)

end

/-! ### Reading text -/

/-- Containers may lie inside each other to this depth, not including it, if they are used. -/
def depthLimit : Nat := 128

/-- A container at a depth: beyond the limit it can only be passed over. -/
def shallow (depth : Nat) (r : Reading) : Reading :=
  if depth < depthLimit then r else .flawed .tooDeep r.passed?

/-- The reading of a lexeme from its two ways of being read. -/
def lexeme (use : Except Fault (Reading × List Char)) (pass : Except Fault (List Char)) :
    Reading × List Char :=
  match use, pass with
  | .ok found, _ => found
  | .error f, .ok rest => (.flawed f none, rest)
  | .error f, .error g => (.flawed f (some g), [])

/-- A fault that is met either way. -/
def stuck (f : Fault) : Reading × List Char := (.flawed f (some f), [])

/-- Reads a string after its opening quote. -/
def scanString (cs : List Char) : Reading × List Char :=
  lexeme ((readString cs).map fun (s, rest) => (.string (String.ofList s), rest)) (skipString cs)

/-- Reads a number. -/
def scanNumber (cs : List Char) : Reading × List Char :=
  lexeme ((readNumber cs).map fun (n, rest) => (.number n, rest)) (skipNumber cs)

/-- Reads the rest of a word that stands for a value. -/
def scanWord (word : String) (value : Reading) (cs : List Char) : Reading × List Char :=
  match readWord word.toList cs with
  | .ok rest => (value, rest)
  | .error f => stuck f

mutual

/-- Reads the value at the head of the text, `depth` containers deep. Every second step takes at
least one character, so a `fuel` of twice the length of the text and one more is enough. -/
def scan (depth : Nat) : (fuel : Nat) → List Char → Reading × List Char
  | 0, _ => stuck .expectedValue
  | fuel + 1, cs =>
    match skipBlanks cs with
    | [] => stuck .endInValue
    | 'n' :: rest => scanWord "ull" .null rest
    | 't' :: rest => scanWord "rue" (.bool true) rest
    | 'f' :: rest => scanWord "alse" (.bool false) rest
    | '"' :: rest => scanString rest
    | '[' :: rest =>
      let (items, rest) := scanItems (depth + 1) true fuel rest
      (shallow (depth + 1) (.array items), rest)
    | '{' :: rest =>
      let (members, rest) := scanMembers (depth + 1) true fuel rest
      (shallow (depth + 1) (.object members), rest)
    | c :: rest =>
      if c = '-' ∨ isDigit c then scanNumber (c :: rest) else stuck .expectedValue

/-- Reads the items of a list up to its end; `first` before the first of them. -/
def scanItems (depth : Nat) (first : Bool) : (fuel : Nat) → List Char → Items × List Char
  | 0, _ => (.broken .noComma, [])
  | fuel + 1, cs =>
    let next (cs : List Char) : Items × List Char :=
      let (head, rest) := scan depth fuel cs
      let (tail, rest) := scanItems depth false fuel rest
      (.item head tail, rest)
    match skipBlanks cs with
    | [] => (.broken .ended, [])
    | ']' :: rest => (.close, rest)
    | c :: rest =>
      if first then next (c :: rest)
      else if c = ',' then
        match skipBlanks rest with
        | [] => (.broken .endedAfterComma, [])
        | ']' :: _ => (.broken .danglingComma, [])
        | d :: rest' => next (d :: rest')
      else (.broken .noComma, [])

/-- Reads the members of an object up to its end; `first` before the first of them. -/
def scanMembers (depth : Nat) (first : Bool) : (fuel : Nat) → List Char → Members × List Char
  | 0, _ => (.broken .keyNotString .keyNotString, [])
  | fuel + 1, cs =>
    let value (key : Except Fault String) (cs : List Char) : Members × List Char :=
      match skipBlanks cs with
      | ':' :: rest =>
        let (v, rest) := scan depth fuel rest
        let (tail, rest) := scanMembers depth false fuel rest
        (.member key v tail, rest)
      | [] => (.member key (stuck .endInObject).1 .close, [])
      | _ => (.member key (stuck .expectedColon).1 .close, [])
    let next (cs : List Char) : Members × List Char :=
      match readString cs, skipString cs with
      | .ok (k, rest), _ => value (.ok (String.ofList k)) rest
      | .error f, .ok rest => value (.error f) rest
      | .error f, .error g => (.broken f g, [])
    match skipBlanks cs with
    | [] => (.broken .endInObject .endInObject, [])
    | '}' :: rest => (.close, rest)
    | c :: rest =>
      if first then
        if c = '"' then next rest else (.broken .keyNotString .keyNotString, [])
      else if c = ',' then
        match skipBlanks rest with
        | [] => (.broken .endInValue .endInObject, [])
        | '}' :: _ => (.broken .trailingComma .keyNotString, [])
        | '"' :: rest' => next rest'
        | _ => (.broken .keyNotString .keyNotString, [])
      else (.broken .expectedObjectComma .expectedObjectComma, [])

end

/-- The reading of a text, and what follows the value. -/
def readingOf (text : String) : Reading × List Char :=
  let cs := text.toList
  scan 0 (2 * cs.length + 1) cs

/-- The value of a text that holds nothing else. -/
def parse (text : String) : Except Fault Json := do
  let (r, rest) := readingOf text
  let j ← r.settle
  if skipBlanks rest = [] then return j else throw .trailingCharacters

end Likeness.Json
