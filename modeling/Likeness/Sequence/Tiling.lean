import Likeness.Number.Binary64

/-!
# Likeness.Sequence.Tiling

Greedy string tiling: two sequences are covered with common runs, longest runs first.

A round looks at all runs of positions that are equal and not yet marked on either side, and keeps
the longest. Each of these becomes a tile, unless it touches a position marked by a tile placed
earlier in the round. Rounds go on until the longest run is shorter than the least length asked for.
-/

namespace Likeness

/-- A common run: where it starts on either side, and its length. -/
structure Tile where
  source : Nat
  target : Nat
  length : Nat
deriving DecidableEq

/-- Tiles in the order they were placed, and the positions that they cover. -/
structure Tiling where
  tiles : List Tile
  sourceMarks : List Bool
  targetMarks : List Bool

namespace Sequence

variable {α : Type} [DecidableEq α]

/-- Length of the run at the head of two sequences whose elements carry marks. -/
def runLength : List (α × Bool) → List (α × Bool) → Nat
  | (x, false) :: xs, (y, false) :: ys => if x = y then runLength xs ys + 1 else 0
  | _, _ => 0

/-- The suffixes of a list that are not empty, with their positions. -/
def suffixes (position : Nat) : List β → List (Nat × List β)
  | [] => []
  | x :: xs => (position, x :: xs) :: suffixes (position + 1) xs

/-- The longest runs found so far, the latest first, and their length. -/
structure Longest where
  length : Nat
  tiles : List Tile

/-- Takes note of a run. -/
def Longest.note (l : Longest) (t : Tile) : Longest :=
  if t.length = 0 ∨ t.length < l.length then l
  else if l.length < t.length then ⟨t.length, [t]⟩
  else ⟨l.length, t :: l.tiles⟩

/-- The longest unmarked common runs, by source position and then by target position. -/
def longestRuns (a b : List (α × Bool)) : Longest :=
  let found := (suffixes 0 a).foldl
    (fun (l : Longest) (i, xs) =>
      (suffixes 0 b).foldl (fun (l : Longest) (j, ys) => l.note ⟨i, j, runLength xs ys⟩) l)
    ⟨0, []⟩
  ⟨found.length, found.tiles.reverse⟩

end Sequence

namespace Tiling

/-- Whether a position from `start` on, `length` of them, is marked. -/
def touches (marks : List Bool) (start length : Nat) : Bool :=
  ((marks.drop start).take length).contains true

/-- Marks the positions from `start` on, `length` of them. -/
def mark (marks : List Bool) (start length : Nat) : List Bool :=
  marks.mapIdx fun i m => m || (start ≤ i && i < start + length)

/-- Places a tile unless it touches a marked position. -/
def place (t : Tiling) (tile : Tile) : Tiling :=
  if touches t.sourceMarks tile.source tile.length || touches t.targetMarks tile.target tile.length
  then t
  else
    { tiles := t.tiles ++ [tile]
      sourceMarks := mark t.sourceMarks tile.source tile.length
      targetMarks := mark t.targetMarks tile.target tile.length }

/-- No tiles and no marks. -/
def blank (sourceLength targetLength : Nat) : Tiling :=
  ⟨[], List.replicate sourceLength false, List.replicate targetLength false⟩

/-- At most `rounds` rounds. A round that places a tile marks a position, so there is no need for
more rounds than positions. -/
def rounds [DecidableEq α] (a b : List α) (least : Nat) : Nat → Tiling → Tiling
  | 0, t => t
  | n + 1, t =>
    let found := Sequence.longestRuns (a.zip t.sourceMarks) (b.zip t.targetMarks)
    if found.length < least then t else rounds a b least n (found.tiles.foldl place t)

/-- Tiles two sequences with runs of at least `least` positions, and of one at the least. -/
def greedy [DecidableEq α] (a b : List α) (least : Nat) : Tiling :=
  rounds a b (max least 1) (a.length + 1) (blank a.length b.length)

/-- The marked positions. -/
def marked (marks : List Bool) : List Nat :=
  marks.zipIdx.filterMap fun (m, i) => if m then some i else none

/-- The part of the positions that is marked; none of an empty sequence. -/
def coverage (marks : List Bool) : Binary64 :=
  if marks = [] then .zero else .ofNat (marks.count true) / .ofNat marks.length

end Tiling

end Likeness
