import Likeness.Digest.Bytes

/-!
# Likeness.Digest.Xxh3

The 64-bit XXH3 hash with seed zero and the default secret. It fingerprints windows of tokens and
names the entries of a feature cache. Inputs are treated by length: up to 16 bytes, up to 128, up
to 240, and longer ones in stripes of 64 bytes.
-/

namespace Likeness.Xxh3

/-- The default secret, as words of eight bytes. -/
def secretWords : List UInt64 := [
  0xbe4ba423396cfeb8, 0x1cad21f72c81017c, 0xdb979083e96dd4de, 0x1f67b3b7a4a44072,
  0x78e5c0cc4ee679cb, 0x2172ffcc7dd05a82, 0x8e2443f7744608b8, 0x4c263a81e69035e0,
  0xcb00c391bb52283c, 0xa32e531b8b65d088, 0x4ef90da297486471, 0xd8acdea946ef1938,
  0x3f349ce33f76faa8, 0x1d4f0bc7c7bbdcf9, 0x3159b4cd4be0518a, 0x647378d9c97e9fc8,
  0xc3ebd33483acc5ea, 0xeb6313faffa081c5, 0x49daf0b751dd0d17, 0x9e68d429265516d3,
  0xfca1477d58be162b, 0xce31d07ad1b8f88f, 0x280416958f3acb45, 0x7e404bbbcafbd7af]

/-- The bytes of the secret. -/
def secret : ByteArray := ⟨(secretWords.flatMap fun w => Bytes.ofNat 8 w.toNat).toArray⟩

/-! ### Constants and mixing steps -/

def prime32A : UInt64 := 0x9e3779b1
def prime32B : UInt64 := 0x85ebca77
def prime32C : UInt64 := 0xc2b2ae3d
def prime64A : UInt64 := 0x9e3779b185ebca87
def prime64B : UInt64 := 0xc2b2ae3d27d4eb4f
def prime64C : UInt64 := 0x165667b19e3779f9
def prime64D : UInt64 := 0x85ebca77c2b2ae63
def prime64E : UInt64 := 0x27d4eb2f165667c5
def mixer : UInt64 := 0x165667919e3779f9
def shortMixer : UInt64 := 0x9fb21c651e98df25

/-- Eight bytes of the secret. -/
def key64 (start : Nat) : UInt64 := Bytes.word64 secret start

/-- Rotates a word to the left. -/
def rotate (x n : UInt64) : UInt64 := (x <<< n) ||| (x >>> (64 - n))

/-- The bytes of a word the other way round. -/
def swapBytes (x : UInt64) : UInt64 :=
  .ofNat ((Bytes.ofNat 8 x.toNat).foldl (fun n b => 256 * n + b.toNat) 0)

/-- Both halves of the 128-bit product, combined. -/
def foldedProduct (a b : UInt64) : UInt64 :=
  let p := a.toNat * b.toNat
  .ofNat p ^^^ .ofNat (p / 0x10000000000000000)

/-- The last mixing step for inputs of nine bytes and more. -/
def finish (h : UInt64) : UInt64 :=
  let h := (h ^^^ (h >>> 37)) * mixer
  h ^^^ (h >>> 32)

/-- The last mixing step for inputs of up to three bytes. -/
def finishTiny (h : UInt64) : UInt64 :=
  let h := (h ^^^ (h >>> 33)) * prime64B
  let h := (h ^^^ (h >>> 29)) * prime64C
  h ^^^ (h >>> 32)

/-- Sixteen bytes of input mixed with sixteen of the secret. -/
def mix16 (data : ByteArray) (start key : Nat) : UInt64 :=
  foldedProduct (Bytes.word64 data start ^^^ key64 key)
    (Bytes.word64 data (start + 8) ^^^ key64 (key + 8))

/-! ### By length -/

/-- One to three bytes. -/
def tiny (data : ByteArray) : UInt64 :=
  let n := data.size
  let first := (Bytes.byteAt data 0).toNat
  let middle := (Bytes.byteAt data (n / 2)).toNat
  let last := (Bytes.byteAt data (n - 1)).toNat
  let combined := UInt64.ofNat (first * 0x10000 + middle * 0x1000000 + last + n * 0x100)
  finishTiny (combined ^^^ (Bytes.word32 secret 0 ^^^ Bytes.word32 secret 4).toUInt64)

/-- Four to eight bytes. -/
def small (data : ByteArray) : UInt64 :=
  let n := data.size
  let low := (Bytes.word32 data (n - 4)).toUInt64
  let high := (Bytes.word32 data 0).toUInt64
  let h := (low + (high <<< 32)) ^^^ (key64 8 ^^^ key64 16)
  let h := (h ^^^ (rotate h 49 ^^^ rotate h 24)) * shortMixer
  let h := (h ^^^ ((h >>> 35) + .ofNat n)) * shortMixer
  h ^^^ (h >>> 28)

/-- Nine to sixteen bytes. -/
def medium (data : ByteArray) : UInt64 :=
  let n := data.size
  let low := Bytes.word64 data 0 ^^^ (key64 24 ^^^ key64 32)
  let high := Bytes.word64 data (n - 8) ^^^ (key64 40 ^^^ key64 48)
  finish (.ofNat n + swapBytes low + high + foldedProduct low high)

/-- Seventeen to 128 bytes: pairs of chunks from both ends. -/
def paired (data : ByteArray) : UInt64 :=
  let n := data.size
  let pairs := (n - 1) / 32
  finish ((List.range (pairs + 1)).foldl
    (fun acc i => acc + mix16 data (16 * i) (32 * i) + mix16 data (n - 16 * (i + 1)) (32 * i + 16))
    (.ofNat n * prime64A))

/-- Up to 240 bytes: one chunk after the other. -/
def chunked (data : ByteArray) : UInt64 :=
  let n := data.size
  let head := (List.range 8).foldl (fun acc i => acc + mix16 data (16 * i) (16 * i))
    (.ofNat n * prime64A)
  let rest := (List.range (n / 16 - 8)).foldl
    (fun acc i => acc + mix16 data (16 * (i + 8)) (16 * i + 3)) (finish head)
  finish (rest + mix16 data (n - 16) 119)

/-! ### Long inputs -/

/-- The initial accumulators. -/
def lanes : Array UInt64 :=
  #[prime32C, prime64A, prime64B, prime64C, prime64D, prime32B, prime64E, prime32A]

/-- Adds a stripe of 64 bytes to the accumulators. -/
def accumulate (data : ByteArray) (start key : Nat) (acc : Array UInt64) : Array UInt64 :=
  (Array.range 8).map fun i =>
    let own : UInt64 := Bytes.word64 data (start + 8 * i)
    let neighbour := Bytes.word64 data (start + 8 * (if i % 2 = 0 then i + 1 else i - 1))
    let keyed := own ^^^ key64 (key + 8 * i)
    acc.getD i 0 + neighbour + keyed.toUInt32.toUInt64 * (keyed >>> 32)

/-- Stirs the accumulators at the end of a block. -/
def scramble (acc : Array UInt64) : Array UInt64 :=
  acc.mapIdx fun i (a : UInt64) => ((a ^^^ (a >>> 47)) ^^^ key64 (128 + 8 * i)) * prime32A

/-- Stripes from a position on, each with the next eight bytes of the secret. -/
def stripes (data : ByteArray) (start count : Nat) (acc : Array UInt64) : Array UInt64 :=
  (List.range count).foldl (fun acc i => accumulate data (start + 64 * i) (8 * i) acc) acc

/-- More than 240 bytes: blocks of sixteen stripes, then the stripes that are left and the last. -/
def long (data : ByteArray) : UInt64 :=
  let n := data.size
  let blocks := (n - 1) / 1024
  let acc := (List.range blocks).foldl
    (fun acc i => scramble (stripes data (1024 * i) 16 acc)) lanes
  let acc := stripes data (1024 * blocks) ((n - 1 - 1024 * blocks) / 64) acc
  let acc := accumulate data (n - 64) 121 acc
  finish ((List.range 4).foldl
    (fun h i => h + foldedProduct (acc.getD (2 * i) 0 ^^^ key64 (11 + 16 * i))
      (acc.getD (2 * i + 1) 0 ^^^ key64 (19 + 16 * i)))
    (.ofNat n * prime64A))

/-- The hash of a byte string. -/
def hash (data : ByteArray) : UInt64 :=
  let n := data.size
  if n = 0 then finishTiny (key64 56 ^^^ key64 64)
  else if n ≤ 3 then tiny data
  else if n ≤ 8 then small data
  else if n ≤ 16 then medium data
  else if n ≤ 128 then paired data
  else if n ≤ 240 then chunked data
  else long data

end Likeness.Xxh3
