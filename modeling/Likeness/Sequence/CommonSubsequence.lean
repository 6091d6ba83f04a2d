import Likeness.Number.Binary64

/-!
# Likeness.Sequence.CommonSubsequence

The length of a longest common subsequence. The table of prefix lengths is computed row by row, and two
rows of it are kept, which are swapped after each outer element and never cleared.
-/

namespace Likeness.Sequence

variable {α : Type} [DecidableEq α]

/-- The rows that are kept: the row of the outer elements so far, and the one that is overwritten with the
next. Each has an entry for every prefix of the inner sequence, the empty one included. -/
structure CommonRows where
  previous : Array Nat
  current : Array Nat

namespace CommonRows

/-- The rows for an inner sequence of `n` elements before any outer one. -/
def blank (n : Nat) : CommonRows := ⟨.replicate (n + 1) 0, .replicate (n + 1) 0⟩

/-- Computes the entry behind the inner element `y` at `j`, for the outer element `x`. -/
def put (x : α) (rows : CommonRows) (y : α) (j : Nat) : CommonRows :=
  let entry :=
    if x = y then rows.previous.getD j 0 + 1
    else max (rows.previous.getD (j + 1) 0) (rows.current.getD j 0)
  { rows with current := rows.current.setIfInBounds (j + 1) entry }

/-- Computes the entries behind the inner elements from `j` on. -/
def fill (x : α) : (inner : List α) → (j : Nat) → CommonRows → CommonRows
  | [], _, rows => rows
  | y :: inner, j, rows => fill x inner (j + 1) (rows.put x y j)

/-- Exchanges the rows: the one that was filled is the previous one from now on. -/
def swap (rows : CommonRows) : CommonRows := ⟨rows.current, rows.previous⟩

end CommonRows

/-- The length of a longest common subsequence, with a given sequence outside. -/
def commonLengthWithin (outer inner : List α) : Nat :=
  if inner.isEmpty then 0
  else
    let rows := outer.foldl (fun rows x => (rows.fill x inner 0).swap) (CommonRows.blank inner.length)
    rows.previous.getD inner.length 0

/-- The length of a longest common subsequence, with the longer sequence outside. -/
def commonLength (a b : List α) : Nat :=
  if b.length ≤ a.length then commonLengthWithin a b else commonLengthWithin b a

/-- Twice the common length over the sum of the lengths; zero when either sequence is empty. -/
def commonRatio (a b : List α) : Binary64 :=
  if a = [] ∨ b = [] then .zero
  else .ofNat (2 * commonLength a b) / .ofNat (a.length + b.length)

end Likeness.Sequence
