import Likeness.Outline.Alignment

/-!
# Likeness.Outline.Matrix

The attribution of a similarity to declarations: a matrix with a row for each declaration of the
first work and a column for each of the second, holding the scores of their bodies.
-/

namespace Likeness

/-- Rows of fractions. A matrix read from a record may be ragged. -/
structure Matrix where
  cells : List (List Fraction)
deriving DecidableEq, Inhabited

/-- The best counterpart of one declaration. -/
structure HeadMatch where
  first : Nat
  second : Nat
  similarity : Binary64
deriving DecidableEq

namespace Matrix

def zeroed (rows cols : Nat) : Matrix :=
  ⟨List.replicate rows (List.replicate cols ⟨0, 0⟩)⟩

/-- A matrix of the given size that holds what the grid has at each position, and zeros beside. -/
def ofGrid (g : Grid Fraction) (rows cols : Nat) : Matrix :=
  ⟨(List.range rows).map fun i => (List.range cols).map fun j => (g.get? i j).getD ⟨0, 0⟩⟩

/-- How many rows there are. -/
def rows (m : Matrix) : Nat := m.cells.length

/-- Width of the first row. -/
def cols (m : Matrix) : Nat := (m.cells.head?.map List.length).getD 0

/-- The value at a position, if there is one. -/
def get? (m : Matrix) (row col : Nat) : Option Fraction := do (← m.cells[row]?)[col]?

/-- The ratio of every value. -/
def ratios (m : Matrix) : List (List Binary64) := m.cells.map (·.map Fraction.ratio)

/-- The first of the greatest positive ratios, with its position counted from `col`. -/
def bestOf (best : Option (Nat × Binary64)) (col : Nat) : List Fraction → Option (Nat × Binary64)
  | [] => best
  | f :: rest =>
    let r := f.ratio
    let better := match best with
      | none => Binary64.zero.lt r
      | some (_, s) => Binary64.zero.lt r && s.lt r
    bestOf (if better then some (col, r) else best) (col + 1) rest

/-- The best column of every row that has a positive ratio. -/
def bestMatches (m : Matrix) : List HeadMatch :=
  m.cells.zipIdx.filterMap fun (row, i) =>
    (bestOf none 0 row).map fun (j, r) => ⟨i, j, r⟩

end Matrix

/-- The outcome of comparing two outlines. -/
structure OutlineLikeness where
  similarity : Binary64
  matrix : Matrix
deriving DecidableEq

namespace OutlineLikeness

/-- The similarity in percent, which the threshold is held against. -/
def percent (l : OutlineLikeness) : Binary64 := l.similarity.percent

/-- Aligns two outlines whose works declare so many heads. -/
def ofOutlines (a b : Outline) (aHeads bHeads : Nat) : OutlineLikeness :=
  let g := Outline.childScores a b
  { similarity := (Outline.align a b).ratio
    matrix := .ofGrid ⟨g.rows, g.cols, g.cells.map Score.fraction⟩ aHeads bHeads }

end OutlineLikeness

end Likeness
