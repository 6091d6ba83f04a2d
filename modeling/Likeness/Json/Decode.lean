import Likeness.Json.Reading
import Likeness.Text.Quoted

/-!
# Likeness.Json.Decode

Typed reading of JSON.

A decoder takes a reading and either finds a value of its type or says what does not fit. It looks
at things in the order of the text, so of two things that do not fit the first is reported. A
record can be given as an object with named members, in any order and with unknown members passed
over, or as an array of its fields in their order.
-/

namespace Likeness.Json

/-! ### What does not fit -/

/-- The kind of value that was found. -/
inductive Found where
  | null
  | bool (b : Bool)
  | number (n : Number)
  | string (s : String)
  | list
  | object

/-- Why a reading is no value of a type. -/
inductive Mismatch where
  | fault (f : Fault)
  | kind (found : Found) (expected : String)
  | value (found : Found) (expected : String)
  | length (found : Nat) (expected : String)
  | missing (field : String)
  | duplicate (field : String)
  | variant (found : String) (known : List String)
  /-- A text that is not what it should stand for. -/
  | text (message : String)

namespace Found

/-- What was found, as a message names it. -/
def text : Found → String
  | .null => "null"
  | .bool b => "boolean `" ++ toString b ++ "`"
  | .number (.integer i) => "integer `" ++ toString i ++ "`"
  | .number (.real x) => "floating point `" ++ x.write layout ++ "`"
  | .string s => "string " ++ Text.quoted s
  | .list => "sequence"
  | .object => "map"

end Found

/-- The names of a choice, as a message lists them. -/
def oneOf : List String → String
  | [] => "there are no variants"
  | [a] => "expected `" ++ a ++ "`"
  | [a, b] => "expected `" ++ a ++ "` or `" ++ b ++ "`"
  | names => "expected one of " ++ ", ".intercalate (names.map fun n => "`" ++ n ++ "`")

/-- What is said about a mismatch. -/
def Mismatch.message : Mismatch → String
  | .fault f => f.message
  | .kind found expected => "invalid type: " ++ found.text ++ ", expected " ++ expected
  | .value found expected => "invalid value: " ++ found.text ++ ", expected " ++ expected
  | .length found expected => "invalid length " ++ toString found ++ ", expected " ++ expected
  | .missing field => "missing field `" ++ field ++ "`"
  | .duplicate field => "duplicate field `" ++ field ++ "`"
  | .variant found known => "unknown variant `" ++ found ++ "`, " ++ oneOf known
  | .text message => message

/-- Where a reading comes from, which decides how surplus items of an array are reported. -/
inductive Origin where
  /-- Straight from text. -/
  | text
  /-- A value that was read as a whole before its kind was known. -/
  | buffer
  /-- A value that was there before. -/
  | tree
deriving DecidableEq

/-- Reads a value of a type. -/
abbrev Decoder (α : Type) := Origin → Reading → Except Mismatch α

namespace Decode

/-! ### Leaves -/

/-- The mismatch of a reading of the wrong kind. -/
def wrongKind (expected : String) : Reading → Mismatch
  | .null => .kind .null expected
  | .bool b => .kind (.bool b) expected
  | .number n => .kind (.number n) expected
  | .string s => .kind (.string s) expected
  | .array _ => .kind .list expected
  | .object _ => .kind .object expected
  | .flawed used _ => .fault used

/-- An integer from `low` up to, and not including, `limit`. -/
def integer (name : String) (low limit : Int) : Decoder Int := fun _ r =>
  match r with
  | .number (.integer i) =>
    if low ≤ i ∧ i < limit then .ok i else .error (.value (.number (.integer i)) name)
  | r => .error (wrongKind name r)

/-- A number of eight bits. -/
def uint8 : Decoder UInt8 := fun o r => return .ofNat (← integer "u8" 0 0x100 o r).toNat

/-- A number of 32 bits. -/
def uint32 : Decoder UInt32 := fun o r => return .ofNat (← integer "u32" 0 0x100000000 o r).toNat

/-- A number of 64 bits. -/
def uint64 : Decoder UInt64 := fun o r => return .ofNat (← integer "u64" 0 0x10000000000000000 o r).toNat

/-- A count, which has the range of a 64-bit word. -/
def size : Decoder UInt64 := fun o r => return .ofNat (← integer "usize" 0 0x10000000000000000 o r).toNat

/-- A number of 64 bits with a sign. -/
def int64 : Decoder Int64 := fun o r =>
  return .ofInt (← integer "i64" (-0x8000000000000000) 0x8000000000000000 o r)

/-- Any number; integers are taken as the nearest real. -/
def binary64 : Decoder Binary64 := fun _ r =>
  match r with
  | .number (.integer i) => .ok (.ofInt i)
  | .number (.real x) => .ok x
  | r => .error (wrongKind "f64" r)

/-- A truth value. -/
def boolean : Decoder Bool := fun _ r =>
  match r with
  | .bool b => .ok b
  | r => .error (wrongKind "a boolean" r)

/-- A text, which `expected` names where something else is found. -/
def stringAs (expected : String) : Decoder String := fun _ r =>
  match r with
  | .string s => .ok s
  | r => .error (wrongKind expected r)

/-- A text. -/
def string : Decoder String := stringAs "a string"

/-- A value, or nothing for null. -/
def optional (decode : Decoder α) : Decoder (Option α) := fun o r =>
  match r with
  | .null => .ok none
  | r => return some (← decode o r)

/-! ### Lists -/

/-- The values of all items, in order. -/
def allItems (decode : Reading → Except Mismatch α) : Items → Except Mismatch (List α)
  | .close => .ok []
  | .broken how => .error (.fault how.used)
  | .item head tail => do
    let a ← decode head
    return a :: (← allItems decode tail)

/-- A list of values. -/
def many (decode : Decoder α) : Decoder (List α) := fun o r =>
  match r with
  | .array items => allItems (decode o) items
  | r => .error (wrongKind "a sequence" r)

/-- How many items were read before the end of a list or a fault in it. -/
def itemCount : Items → Nat
  | .item _ tail => itemCount tail + 1
  | _ => 0

/-- How a message counts items. -/
def countOf (n : Nat) : String :=
  toString n ++ if n = 1 then " element" else " elements"

/-- The end of an array of which `taken` items were wanted. -/
def expectEnd (o : Origin) (taken : Nat) : Items → Except Mismatch Unit
  | .close => .ok ()
  | .broken how => .error (.fault how.closing)
  | .item _ tail =>
    let found := taken + 1 + itemCount tail
    match o with
    | .text => .error (.fault .trailingCharacters)
    | .buffer => .error (.length found (countOf taken ++ " in sequence"))
    | .tree => .error (.length found "fewer elements in array")

/-- An array of two items. -/
def pair (first : Decoder α) (second : Decoder β) : Decoder (α × β) := fun o r =>
  let expected := "a tuple of size 2"
  match r with
  | .array .close => .error (.length 0 expected)
  | .array (.broken how) => .error (.fault how.used)
  | .array (.item x tail) => do
    let a ← first o x
    match tail with
    | .close => .error (.length 1 expected)
    | .broken how => .error (.fault how.used)
    | .item y rest => do
      let b ← second o y
      expectEnd o 2 rest
      return (a, b)
  | r => .error (wrongKind expected r)

/-! ### Maps -/

/-- The members of an object, in order. -/
def allMembers (decode : Reading → Except Mismatch α) :
    Members → Except Mismatch (List (String × α))
  | .close => .ok []
  | .broken used _ => .error (.fault used)
  | .member key value tail => do
    let k ← key.mapError Mismatch.fault
    let a ← decode value
    return (k, a) :: (← allMembers decode tail)

/-- An object with any names, repeated ones included. -/
def dictionary (decode : Decoder α) : Decoder (List (String × α)) := fun o r =>
  match r with
  | .object members => allMembers (decode o) members
  | r => .error (wrongKind "a map" r)

/-! ### Records -/

/-- A field of a record under construction. -/
structure Slot (σ : Type) where
  name : String
  /-- Whether an array may end before this field. -/
  spare : Bool
  /-- Whether the field has been read. -/
  full : σ → Bool
  read : Origin → Reading → σ → Except Mismatch σ

/-- The slot of a field that is kept as an option until the record is complete. -/
def slot (name : String) (get : σ → Option α) (set : σ → Option α → σ) (decode : Decoder α)
    (spare : Bool) : Slot σ where
  name := name
  spare := spare
  full s := (get s).isSome
  read o r s := return set s (some (← decode o r))

/-- A field that a record cannot do without. -/
def required (name : String) : Option α → Except Mismatch α
  | some a => .ok a
  | none => .error (.missing name)

/-- Fills slots from the members of an object. -/
def fillNamed (o : Origin) (slots : List (Slot σ)) (s : σ) : Members → Except Mismatch σ
  | .close => .ok s
  | .broken used _ => .error (.fault used)
  | .member key value tail => do
    let k ← key.mapError Mismatch.fault
    match slots.find? (·.name = k) with
    | some slot =>
      if slot.full s then .error (.duplicate k)
      else fillNamed o slots (← slot.read o value s) tail
    | none =>
      match value.passed? with
      | some f => .error (.fault f)
      | none => fillNamed o slots s tail

/-- Fills slots from the items of an array; gives the items that are left over. -/
def fillInOrder (o : Origin) (expected : String) (index : Nat) (s : σ) :
    List (Slot σ) → Items → Except Mismatch (σ × Items)
  | [], items => .ok (s, items)
  | slot :: slots, .item head tail => do
    fillInOrder o expected (index + 1) (← slot.read o head s) slots tail
  | _ :: _, .broken how => .error (.fault how.used)
  | slot :: slots, .close =>
    if slot.spare then fillInOrder o expected (index + 1) s slots .close
    else .error (.length index expected)

/-- A record, from its slots, the state before any is filled, and the step that completes it. -/
def record (name : String) (slots : List (Slot σ)) (blank : σ)
    (complete : σ → Except Mismatch α) : Decoder α := fun o r =>
  match r with
  | .object members => do complete (← fillNamed o slots blank members)
  | .array items => do
    let (s, rest) ← fillInOrder o (name ++ " with " ++ countOf slots.length) 0 blank slots items
    let a ← complete s
    expectEnd o slots.length rest
    return a
  | r => .error (wrongKind name r)

/-! ### Choices -/

/-- The position of a name among those that are known. -/
def indexOf (known : List String) (name : String) : Except Mismatch Nat :=
  match known.findIdx? (· = name) with
  | some i => .ok i
  | none => .error (.variant name known)

/-- The name of a variant. In a buffered value it may be given by number. -/
def variantName (known : List String) : Decoder Nat := fun o r =>
  match o, r with
  | _, .string s => indexOf known s
  | .buffer, .number (.integer i) =>
    if i < 0 then .error (wrongKind "variant identifier" r)
    else if i < known.length then .ok i.toNat
    else .error (.value (.number (.integer i))
      ("variant index 0 <= i < " ++ toString known.length))
  | _, r => .error (wrongKind "variant identifier" r)

/-- A variant without content: its name, or an object that maps the name to nothing. -/
def choice (known : List String) : Decoder Nat := fun o r =>
  let single := "map with a single key"
  match r with
  | .string s => indexOf known s
  | .object .close => .error (.value .object single)
  | .object (.member key value .close) => do
    let i ← indexOf known (← key.mapError Mismatch.fault)
    match o, value with
    | _, .null => return i
    | .buffer, .object .close => return i
    | _, value => .error (wrongKind "unit" value)
  | .object _ => .error (.value .object single)
  | r => .error (wrongKind "string or map" r)

/-- The members of a tagged object: the variant, once it is met, and the others as they are. -/
def taggedMembers (o : Origin) (tag : String) (known : List String) (found : Option Nat) :
    Members → Except Mismatch (Option Nat × List (String × Json))
  | .close => .ok (found, [])
  | .broken used _ => .error (.fault used)
  | .member key value tail => do
    let k ← key.mapError Mismatch.fault
    if k = tag then
      if found.isSome then .error (.duplicate tag)
      else taggedMembers o tag known (some (← variantName known o value)) tail
    else do
      let j ← value.settle.mapError Mismatch.fault
      let (found, rest) ← taggedMembers o tag known found tail
      return (found, (k, j) :: rest)

/-- A value that names its own variant: by a member of an object, or by the first item of an
array. Everything else is read as a whole and left to the decoder of the variant. -/
def tagged (name tag : String) (known : List String) (content : Nat → Decoder α) : Decoder α :=
  fun o r =>
  match r with
  | .object members => do
    match ← taggedMembers o tag known none members with
    | (none, _) => .error (.missing tag)
    | (some i, rest) => content i .buffer (Json.object rest).reading
  | .array .close => .error (.missing tag)
  | .array (.broken how) => .error (.fault how.used)
  | .array (.item head tail) => do
    let i ← variantName known o head
    let rest ← tail.settle.mapError Mismatch.fault
    content i .buffer (Json.array rest).reading
  | r => .error (wrongKind name r)

end Decode

/-! ### Texts -/

/-- Decodes a text that holds one value and nothing else. -/
def decode (decoder : Decoder α) (text : String) : Except Mismatch α := do
  let (r, rest) := readingOf text
  let a ← decoder .text r
  if skipBlanks rest = [] then return a else throw (.fault .trailingCharacters)

end Likeness.Json
