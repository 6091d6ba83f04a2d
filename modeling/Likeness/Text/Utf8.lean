/-!
# Likeness.Text.Utf8

Text from bytes, and where bytes first fail to be UTF-8. The bytes are read one at a time; inside a
character, how many more bytes it has and between which bounds the next one lies is known from the
bytes before.
-/

namespace Likeness.Text.Utf8

/-- The first character that is not well formed. -/
structure Fault where
  /-- Where it starts. -/
  index : Nat
  /-- How many of its bytes belong together, unless the bytes end inside it. -/
  length : Option Nat
deriving DecidableEq

namespace Fault

/-- What is said about bytes that are no text. -/
def message (f : Fault) : String :=
  match f.length with
  | some n =>
    "invalid utf-8 sequence of " ++ toString n ++ " bytes from index " ++ toString f.index
  | none => "incomplete utf-8 byte sequence from index " ++ toString f.index

end Fault

/-- What may follow: how many bytes of the character, and the bounds of the next one. -/
structure Tail where
  owed : Nat
  low : UInt8
  high : UInt8

/-- What follows the first byte of a character. -/
def tailOf (b : UInt8) : Option Tail :=
  if b < 0x80 then some ⟨0, 0x80, 0xBF⟩
  else if b < 0xC2 then none
  else if b < 0xE0 then some ⟨1, 0x80, 0xBF⟩
  else if b = 0xE0 then some ⟨2, 0xA0, 0xBF⟩
  else if b = 0xED then some ⟨2, 0x80, 0x9F⟩
  else if b < 0xF0 then some ⟨2, 0x80, 0xBF⟩
  else if b = 0xF0 then some ⟨3, 0x90, 0xBF⟩
  else if b < 0xF4 then some ⟨3, 0x80, 0xBF⟩
  else if b = 0xF4 then some ⟨3, 0x80, 0x8F⟩
  else none

/-- The first fault of bytes, in the character that starts at `index` and has `taken` bytes so
far. -/
def scan (index taken : Nat) (tail : Tail) : List UInt8 → Option Fault
  | [] => if taken = 0 then none else some ⟨index, none⟩
  | b :: rest =>
    if taken = 0 then
      match tailOf b with
      | none => some ⟨index, some 1⟩
      | some t => if t.owed = 0 then scan (index + 1) 0 t rest else scan index 1 t rest
    else if tail.low ≤ b ∧ b ≤ tail.high then
      if tail.owed ≤ 1 then scan (index + taken + 1) 0 tail rest
      else scan index (taken + 1) ⟨tail.owed - 1, 0x80, 0xBF⟩ rest
    else some ⟨index, some taken⟩

/-- The first fault of some bytes. -/
def fault? (bytes : ByteArray) : Option Fault := scan 0 0 ⟨0, 0x80, 0xBF⟩ bytes.toList

/-- The text of some bytes. -/
def decode (bytes : ByteArray) : Except Fault String :=
  match fault? bytes with
  | some f => .error f
  | none => .ok ((String.fromUTF8? bytes).getD "")

end Likeness.Text.Utf8
