/-!
# Likeness.Digest.Bytes

Reading words out of byte strings and writing words as hexadecimal digits.
-/

namespace Likeness

namespace Bytes

/-- The byte at a position; zero beyond the end. -/
def byteAt (data : ByteArray) (i : Nat) : UInt8 := data.data.getD i 0

/-- `count` bytes from `start` on as a number, the least significant byte first. -/
def littleEndian (data : ByteArray) (start : Nat) : (count : Nat) → Nat
  | 0 => 0
  | count + 1 => (byteAt data start).toNat + 256 * littleEndian data (start + 1) count

/-- As `littleEndian`, the most significant byte first. -/
def bigEndian (data : ByteArray) (start count : Nat) : Nat :=
  (List.range count).foldl (fun n i => 256 * n + (byteAt data (start + i)).toNat) 0

/-- The 32-bit number in four bytes. -/
def word32 (data : ByteArray) (start : Nat) : UInt32 := .ofNat (littleEndian data start 4)

/-- The 64-bit number in eight bytes. -/
def word64 (data : ByteArray) (start : Nat) : UInt64 := .ofNat (littleEndian data start 8)

/-- The lowest `count` bytes of a number, the least significant first. -/
def ofNat : (count : Nat) → Nat → List UInt8
  | 0, _ => []
  | count + 1, n => .ofNat n :: ofNat count (n / 256)

end Bytes

/-- The lowest `digits` digits of a number in base sixteen, lower case. -/
def hexadecimal (digits n : Nat) : String :=
  String.ofList ((List.range digits).map fun i => Nat.digitChar (n / Nat.pow 16 (digits - 1 - i) % 16))

end Likeness
