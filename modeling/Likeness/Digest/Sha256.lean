import Likeness.Digest.Bytes

/-!
# Likeness.Digest.Sha256

The 256-bit digest of the Secure Hash Standard, which names the content of a work.
-/

namespace Likeness.Sha256

/-- The round constants: fractional parts of the cube roots of the first primes. -/
def roundConstants : List UInt32 := [
  0x428a2f98, 0x71374491, 0xb5c0fbcf, 0xe9b5dba5, 0x3956c25b, 0x59f111f1, 0x923f82a4, 0xab1c5ed5,
  0xd807aa98, 0x12835b01, 0x243185be, 0x550c7dc3, 0x72be5d74, 0x80deb1fe, 0x9bdc06a7, 0xc19bf174,
  0xe49b69c1, 0xefbe4786, 0x0fc19dc6, 0x240ca1cc, 0x2de92c6f, 0x4a7484aa, 0x5cb0a9dc, 0x76f988da,
  0x983e5152, 0xa831c66d, 0xb00327c8, 0xbf597fc7, 0xc6e00bf3, 0xd5a79147, 0x06ca6351, 0x14292967,
  0x27b70a85, 0x2e1b2138, 0x4d2c6dfc, 0x53380d13, 0x650a7354, 0x766a0abb, 0x81c2c92e, 0x92722c85,
  0xa2bfe8a1, 0xa81a664b, 0xc24b8b70, 0xc76c51a3, 0xd192e819, 0xd6990624, 0xf40e3585, 0x106aa070,
  0x19a4c116, 0x1e376c08, 0x2748774c, 0x34b0bcb5, 0x391c0cb3, 0x4ed8aa4a, 0x5b9cca4f, 0x682e6ff3,
  0x748f82ee, 0x78a5636f, 0x84c87814, 0x8cc70208, 0x90befffa, 0xa4506ceb, 0xbef9a3f7, 0xc67178f2]

/-- The eight chained words. -/
structure Chain where
  a : UInt32
  b : UInt32
  c : UInt32
  d : UInt32
  e : UInt32
  f : UInt32
  g : UInt32
  h : UInt32

/-- The initial words: fractional parts of the square roots of the first eight primes. -/
def Chain.initial : Chain :=
  ⟨0x6a09e667, 0xbb67ae85, 0x3c6ef372, 0xa54ff53a, 0x510e527f, 0x9b05688c, 0x1f83d9ab, 0x5be0cd19⟩

/-- Rotates a word to the right. -/
def rotate (x n : UInt32) : UInt32 := (x >>> n) ||| (x <<< (32 - n))

/-- The message followed by a one bit, zeros up to a full block, and its length in bits. -/
def pad (data : ByteArray) : ByteArray :=
  let zeros := (55 - (data.size : Int)) % 64
  let tail := 0x80 :: List.replicate zeros.toNat 0 ++ (Bytes.ofNat 8 (8 * data.size)).reverse
  data ++ ⟨tail.toArray⟩

/-- The next word of the schedule, from the words so far. -/
def nextWord (ws : Array UInt32) : UInt32 :=
  let back (k : Nat) : UInt32 := ws.getD (ws.size - k) 0
  let x := back 15
  let y := back 2
  (rotate x 7 ^^^ rotate x 18 ^^^ (x >>> 3)) + back 7 +
    (rotate y 17 ^^^ rotate y 19 ^^^ (y >>> 10)) + back 16

/-- The 64 words of the block that starts at a position. -/
def schedule (data : ByteArray) (start : Nat) : Array UInt32 :=
  let first := (Array.range 16).map fun i => UInt32.ofNat (Bytes.bigEndian data (start + 4 * i) 4)
  (List.range 48).foldl (fun ws _ => ws.push (nextWord ws)) first

/-- One round of the compression, with its constant and a word of the block. -/
def Chain.round (s : Chain) (constant word : UInt32) : Chain :=
  let mix := rotate s.e 6 ^^^ rotate s.e 11 ^^^ rotate s.e 25
  let choice := (s.e &&& s.f) ^^^ ((~~~s.e) &&& s.g)
  let first := s.h + mix + choice + constant + word
  let turn := rotate s.a 2 ^^^ rotate s.a 13 ^^^ rotate s.a 22
  let majority := (s.a &&& s.b) ^^^ (s.a &&& s.c) ^^^ (s.b &&& s.c)
  ⟨first + (turn + majority), s.a, s.b, s.c, s.d + first, s.e, s.f, s.g⟩

/-- Chains in the block that starts at a position. -/
def Chain.absorb (s : Chain) (data : ByteArray) (start : Nat) : Chain :=
  let t := (roundConstants.zip (schedule data start).toList).foldl (fun s (k, w) => s.round k w) s
  ⟨s.a + t.a, s.b + t.b, s.c + t.c, s.d + t.d, s.e + t.e, s.f + t.f, s.g + t.g, s.h + t.h⟩

/-- The digest in hexadecimal. -/
def hash (data : ByteArray) : String :=
  let padded := pad data
  let s := (List.range (padded.size / 64)).foldl (fun s i => s.absorb padded (64 * i)) Chain.initial
  String.join ([s.a, s.b, s.c, s.d, s.e, s.f, s.g, s.h].map fun w => hexadecimal 8 w.toNat)

end Likeness.Sha256
