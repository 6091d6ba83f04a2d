import Likeness.Outline.Basic
import Likeness.Outline.Grid

/-!
# Likeness.Outline.Alignment

The alignment of two outlines. Their children are scored against each other by aligning the
bodies, a greedy selection pairs them off, and the children left over on the longer side count in
full as unmatched. Labels play no part: what is compared is the shape of the trees. Siblings are
paired off wherever they stand; their order only decides between cells of equal ratio.

Since each body is shorter than the outline it is taken from, the recursion ends on every list of
entries, well nested or not.
-/

namespace Likeness

namespace Outline

/-- Total length, headings included, of the bodies whose positions were not taken. -/
def leftOver (bodies : List Outline) (taken : List Nat) : Nat :=
  (bodies.zipIdx.filter fun (_, i) => !taken.contains i).foldl (fun n (b, _) => n + (b.length + 1)) 0

/-- The score of two outlines whose children have the scores `table`. -/
def combine (a b : List Outline) (table : Grid Score) : Score :=
  let s := table.greedy
  let rest :=
    if b.length < a.length then leftOver a s.rows
    else if a.length < b.length then leftOver b s.cols
    else 0
  ⟨s.score.matched, s.score.total + rest⟩

/-- The greedy alignment. The `1` stands for the parents of the two outlines, which match. -/
def align (a b : Outline) : Score :=
  if a = [] ∨ b = [] then ⟨1, a.length + b.length + 1⟩
  else
    combine a.bodies b.bodies
      (.ofLists a.bodies.attach b.bodies.attach fun x y => align x.1 y.1)
termination_by a.length
decreasing_by exact length_of_mem_bodies x.2

/-- The scores of the children of two outlines, before any are paired off. -/
def childScores (a b : Outline) : Grid Score :=
  if a = [] ∨ b = [] then .empty else .ofLists a.bodies b.bodies align

end Outline

end Likeness
