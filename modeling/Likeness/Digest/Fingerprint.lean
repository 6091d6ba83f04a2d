import Likeness.Digest.Xxh3

/-!
# Likeness.Digest.Fingerprint

Fingerprints of windows. A window is written as its length followed by its elements, each in a way
that shows where it ends, and the bytes are hashed.
-/

namespace Likeness

/-- Things that can be elements of a fingerprinted window. -/
class Element (α : Type) where
  bytes : α → List UInt8

instance : Element UInt8 := ⟨fun b => [b]⟩
instance : Element UInt32 := ⟨fun w => Bytes.ofNat 4 w.toNat⟩
instance : Element UInt64 := ⟨fun w => Bytes.ofNat 8 w.toNat⟩
instance : Element Char := ⟨fun c => Bytes.ofNat 4 c.toNat⟩
instance : Element String := ⟨fun s => s.toUTF8.toList ++ [0xff]⟩

/-- The hash of a window. -/
def fingerprint [Element α] (window : List α) : UInt64 :=
  Xxh3.hash ⟨(Bytes.ofNat 8 window.length ++ window.flatMap Element.bytes).toArray⟩

end Likeness
