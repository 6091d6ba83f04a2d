import Likeness.Outline.Fraction

/-!
# Likeness.Outline.Grid

Tables of values and the greedy selection of cells from a table of scores.

A round of the selection takes the cell of greatest ratio, the first in reading order among equals,
and clears its row and its column. There are as many rounds as the shorter side is long, so every
row or every column is taken.
-/

namespace Likeness

/-- A table stored in reading order. -/
structure Grid (α : Type) where
  rows : Nat
  cols : Nat
  cells : Array α

namespace Grid

/-- The table without cells. -/
def empty : Grid α := ⟨0, 0, #[]⟩

/-- The cell of a row and a column inside the table. -/
def get? (g : Grid α) (row col : Nat) : Option α :=
  if row < g.rows ∧ col < g.cols then g.cells[row * g.cols + col]? else none

/-- All positions, in reading order. -/
def positions (rows cols : Nat) : List (Nat × Nat) :=
  (List.range rows).flatMap fun i => (List.range cols).map fun j => (i, j)

/-- The table of `f` over two lists. -/
def ofLists (rows : List α) (cols : List β) (f : α → β → γ) : Grid γ :=
  ⟨rows.length, cols.length, (rows.flatMap fun a => cols.map fun b => f a b).toArray⟩

/-! ### Greedy selection -/

/-- A candidate cell and its ratio. -/
structure Candidate where
  row : Nat
  col : Nat
  ratio : Binary64

/-- The first cell of greatest positive ratio; the first cell of all if no ratio is positive. -/
def best (g : Grid Score) : Nat × Nat :=
  let found := (positions g.rows g.cols).foldl
    (fun (c : Candidate) (i, j) =>
      match g.get? i j with
      | none => c
      | some s =>
        let r := s.ratio
        if c.ratio.lt r then ⟨i, j, r⟩ else c)
    ⟨0, 0, .zero⟩
  (found.row, found.col)

/-- Sets the cells of a row and a column to the empty score. -/
def clear (g : Grid Score) (row col : Nat) : Grid Score :=
  { g with cells := g.cells.mapIdx fun k s => if k / g.cols = row ∨ k % g.cols = col then 0 else s }

/-- What a selection has added up, and which rows and columns it has taken. -/
structure Selection where
  score : Score
  rows : List Nat
  cols : List Nat

/-- Takes the best cell of each of `rounds` rounds. -/
def select : Nat → Grid Score → Selection → Selection
  | 0, _, s => s
  | rounds + 1, g, s =>
    let (i, j) := g.best
    select rounds (g.clear i j)
      { score := s.score + (g.get? i j).getD 0, rows := i :: s.rows, cols := j :: s.cols }

/-- The greedy selection. The parents of the cells count as one match on top of the cells. -/
def greedy (g : Grid Score) : Selection :=
  select (min g.rows g.cols) g ⟨⟨1, 1⟩, [], []⟩

end Grid

end Likeness
