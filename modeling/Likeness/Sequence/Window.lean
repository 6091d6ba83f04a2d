import Likeness.Number.Binary64

/-!
# Likeness.Sequence.Window

The windows of a sequence: its runs of a fixed positive length. They are compared as sets, and
their hashes serve as fingerprints, which can be thinned out.
-/

namespace Likeness.Sequence

/-- All windows of length `n`, in order. There are none of length zero. -/
def windows (n : Nat) (xs : List α) : List (List α) :=
  if n = 0 then [] else (List.range (xs.length + 1 - n)).map fun i => (xs.drop i).take n

/-- The distinct elements of a list, each at its first place. -/
def distinct [DecidableEq α] (xs : List α) : List α :=
  xs.foldl (fun seen x => if seen.contains x then seen else x :: seen) [] |>.reverse

/-- The common windows of two sequences, as a part of all their windows; zero without windows. -/
def windowOverlap [DecidableEq α] (n : Nat) (a b : List α) : Binary64 :=
  let x := distinct (windows n a)
  let y := distinct (windows n b)
  let shared := (x.filter y.contains).length
  let all := x.length + y.length - shared
  if all = 0 then .zero else .ofNat shared / .ofNat all

/-- Every `step`-th element, the first one included, after skipping `skip` elements. -/
def everyNth (step : Nat) : (skip : Nat) → List α → List α
  | _, [] => []
  | 0, x :: xs => x :: everyNth step (step - 1) xs
  | skip + 1, _ :: xs => everyNth step skip xs

/-- Keeps one hash in every `log2` of their number. -/
def thin (hashes : List α) : List α :=
  everyNth (max 1 hashes.length.log2) 0 hashes

end Likeness.Sequence
