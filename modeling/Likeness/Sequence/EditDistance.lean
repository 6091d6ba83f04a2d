import Likeness.Number.Binary64

/-!
# Likeness.Sequence.EditDistance

The least number of insertions, deletions and substitutions that turn one sequence into another. The
table of prefix distances is computed row by row, and two rows of it are kept, which are swapped after
each source element and never cleared.
-/

namespace Likeness

/-- An edit distance and the similarity it stands for. -/
structure EditDistance where
  distance : Nat
  similarity : Binary64
deriving DecidableEq

namespace Sequence

variable {α : Type} [DecidableEq α]

/-- The rows that are kept: the row of the source elements so far, and the one that is overwritten with the
next. Each has an entry for every prefix of the target, the empty one included. -/
structure EditRows where
  previous : Array Nat
  current : Array Nat

namespace EditRows

/-- The rows for a target of `n` elements before any source element. -/
def initial (n : Nat) : EditRows := ⟨.range (n + 1), .replicate (n + 1) 0⟩

/-- Computes the entry of the empty prefix, for the source element at `i`. -/
def head (rows : EditRows) (i : Nat) : EditRows :=
  { rows with current := rows.current.setIfInBounds 0 (i + 1) }

/-- Computes the entry behind the target element `y` at `j`, for the source element `x`. -/
def put (x : α) (rows : EditRows) (y : α) (j : Nat) : EditRows :=
  let substitution := rows.previous.getD j 0 + if x = y then 0 else 1
  let entry := min (min substitution (rows.previous.getD (j + 1) 0 + 1)) (rows.current.getD j 0 + 1)
  { rows with current := rows.current.setIfInBounds (j + 1) entry }

/-- Computes the entries behind the target elements from `j` on. -/
def fill (x : α) : (target : List α) → (j : Nat) → EditRows → EditRows
  | [], _, rows => rows
  | y :: target, j, rows => fill x target (j + 1) (rows.put x y j)

/-- Exchanges the rows: the one that was filled is the previous one from now on. -/
def swap (rows : EditRows) : EditRows := ⟨rows.current, rows.previous⟩

/-- The rows after the source elements from `i` on. -/
def run (target : List α) : (source : List α) → (i : Nat) → EditRows → EditRows
  | [], _, rows => rows
  | x :: source, i, rows => run target source (i + 1) ((rows.head i).fill x target 0).swap

end EditRows

/-- The least number of edits, read off the last row. -/
def editLength (a b : List α) : Nat :=
  ((EditRows.initial b.length).run b a 0).previous.getD b.length 0

/-- The edit distance. Two empty sequences are fully similar. -/
def editDistance (a b : List α) : EditDistance :=
  let longest := max a.length b.length
  if longest = 0 then ⟨0, .one⟩
  else
    let d := editLength a b
    ⟨d, .one - .ofNat d / .ofNat longest⟩

end Sequence

end Likeness
