import Likeness.Digest.Fingerprint
import Likeness.Sequence.Window

/-!
# Likeness.Digest.Grams

The windows of a sequence as they are taken for fingerprints: in order or as a set, and as they are or
hashed. Each is cut out between two bounds of its own. A bound beyond the sequence is a fault, and so is a
difference below zero.
-/

namespace Likeness

/-- The windows of a sequence in one of four forms. Sets are listed without repetition. -/
inductive Grams (α : Type) where
  | windows (list : List (List α))
  | distinctWindows (list : List (List α))
  | hashes (list : List UInt64)
  | distinctHashes (list : List UInt64)
deriving DecidableEq

namespace Grams

/-- How many windows or hashes there are. -/
def size : Grams α → Nat
  | windows list => list.length
  | distinctWindows list => list.length
  | hashes list => list.length
  | distinctHashes list => list.length

/-- Whether there are none. -/
def isEmpty (g : Grams α) : Bool := g.size == 0

/-- The elements from `start` up to `stop`, if both bounds are in range. -/
def slice? (xs : List α) (start stop : Nat) : Option (List α) :=
  if start ≤ stop ∧ stop ≤ xs.length then some ((xs.drop start).take (stop - start)) else none

/-- The difference of two numbers, if it is not below zero. -/
def difference? (m n : Nat) : Option Nat := if n ≤ m then some (m - n) else none

/-- The number of windows of length `n`. The last one starts `n - 1` elements before the end; there is
none if that is before the front. -/
def count? (n : Nat) (xs : List α) : Option Nat :=
  if n = 0 then some 0 else (difference? n 1).map fun behind => xs.length - behind

/-- All windows of length `n`, in order. -/
def cut? (n : Nat) (xs : List α) : Option (List (List α)) := do
  (List.range (← count? n xs)).mapM fun start => slice? xs start (start + n)

/-- The windows of length `n` in the form that is asked for. -/
def of? [DecidableEq α] [Element α] (n : Nat) (unique hashed : Bool) (xs : List α) :
    Option (Grams α) := do
  let all ← cut? n xs
  return match unique, hashed with
    | false, false => .windows all
    | true, false => .distinctWindows (Sequence.distinct all)
    | false, true => .hashes (all.map fingerprint)
    | true, true => .distinctHashes (Sequence.distinct (all.map fingerprint))

end Grams

end Likeness
