import Mathlib.Algebra.BigOperators.Group.List.Basic
import Mathlib.Data.List.Nodup
import Mathlib.Data.List.Pairwise
import Likeness.Proofs.Number.Weight
import Likeness.Proofs.Outline.Table

/-!
# Likeness.Proofs.Outline.Selection

What the greedy selection takes, said without rounds.

Two cells are in conflict when they share a row or a column. Of two cells in conflict one *blocks*
the other: the one with the greater weight, or of equal weights the one that comes first in the
row or column they share. A list of cells is *stable* when its cells are positive and free of
conflicts, and every positive cell outside of it is blocked by one inside.

The rounds take a stable list (`Grid.exists_drawn`), and there is only one (`Stable.perm`): a cell
blocked by a cell outside the list would start an endless chain of ever stronger cells. Whatever
order of reading a selection uses, it finds this list, as long as the order agrees with the one
along each row and each column.

Rounds that meet no positive cell go back to the first cell of the table. They are kept track of
exactly (`Grid.spill`), so that nothing here assumes that ratios are positive.
-/

namespace Likeness

/-! ### Scores add up -/

namespace Score

@[ext] theorem ext {s t : Score} (hm : s.matched = t.matched) (ht : s.total = t.total) : s = t := by
  cases s; cases t; cases hm; cases ht; rfl

@[simp] theorem matched_zero : (0 : Score).matched = 0 := rfl
@[simp] theorem total_zero : (0 : Score).total = 0 := rfl
@[simp] theorem matched_add (s t : Score) : (s + t).matched = s.matched + t.matched := rfl
@[simp] theorem total_add (s t : Score) : (s + t).total = s.total + t.total := rfl

instance : AddCommMonoid Score where
  add_assoc s t u := by ext <;> simp [Nat.add_assoc]
  zero_add s := by ext <;> simp
  add_zero s := by ext <;> simp
  add_comm s t := by ext <;> simp [Nat.add_comm]
  nsmul := nsmulRec

end Score

namespace Grid

/-- A position: a row and a column. -/
abbrev Cell := Nat × Nat

/-! ### Cells of a table of scores -/

/-- The score at a position; the empty score outside the table. -/
def cell (g : Grid Score) (p : Cell) : Score := (g.get? p.1 p.2).getD 0

/-- The weight of the score at a position. -/
def weight (g : Grid Score) (p : Cell) : Nat := (g.cell p).weight

theorem weight_le (g : Grid Score) (p : Cell) : g.weight p ≤ Nat.pow 2 63 := (g.cell p).weight_le

theorem cell_clear (g : Grid Score) (p q : Cell) :
    (g.clear p.1 p.2).cell q = if q.1 = p.1 ∨ q.2 = p.2 then 0 else g.cell q := by
  unfold cell
  rw [get?_clear]
  cases g.get? q.1 q.2 with
  | none => simp
  | some s => rfl

theorem weight_clear (g : Grid Score) (p q : Cell) :
    (g.clear p.1 p.2).weight q = if q.1 = p.1 ∨ q.2 = p.2 then 0 else g.weight q := by
  unfold weight
  rw [cell_clear]
  split
  · exact Score.weight_zero
  · rfl

/-- Only positions inside the table have a positive weight. -/
theorem lt_of_weight_pos {g : Grid Score} {p : Cell} (h : 0 < g.weight p) :
    p.1 < g.rows ∧ p.2 < g.cols := by
  by_contra hout
  simp [weight, cell, get?_of_not_lt hout] at h

/-! ### Conflicts -/

/-- Two cells in different rows and different columns. -/
def Apart (p q : Cell) : Prop := p.1 ≠ q.1 ∧ p.2 ≠ q.2

instance (p q : Cell) : Decidable (Apart p q) := inferInstanceAs (Decidable (_ ∧ _))

theorem Apart.symm {p q : Cell} (h : Apart p q) : Apart q p := ⟨h.1.symm, h.2.symm⟩

instance : Std.Symm Apart := ⟨fun _ _ h => h.symm⟩

/-- Cell `q` is in conflict with cell `p` and stronger: it has the greater weight, or it has the
same weight and comes first in the row or column of both. -/
def Blocks (w : Cell → Nat) (q p : Cell) : Prop :=
  (q.1 = p.1 ∧ (w p < w q ∨ w p = w q ∧ q.2 < p.2)) ∨
    (q.2 = p.2 ∧ (w p < w q ∨ w p = w q ∧ q.1 < p.1))

theorem Blocks.not_apart {w : Cell → Nat} {q p : Cell} (h : Blocks w q p) : ¬ Apart q p := by
  rintro ⟨hrow, hcol⟩
  rcases h with ⟨h, -⟩ | ⟨h, -⟩
  · exact hrow h
  · exact hcol h

theorem Blocks.ne {w : Cell → Nat} {q p : Cell} (h : Blocks w q p) : q ≠ p := by
  rintro rfl
  rcases h with ⟨-, h | h⟩ | ⟨-, h | h⟩ <;> omega

/-- Along a chain of blocking cells, weights grow and among equal weights positions fall. -/
theorem Blocks.rank {w : Cell → Nat} {q p : Cell} (h : Blocks w q p) :
    w p < w q ∨ w p = w q ∧ q.1 + q.2 < p.1 + p.2 := by
  rcases h with ⟨hshare, h | ⟨h, hlt⟩⟩ | ⟨hshare, h | ⟨h, hlt⟩⟩
  · exact .inl h
  · exact .inr ⟨h, by omega⟩
  · exact .inl h
  · exact .inr ⟨h, by omega⟩

/-! ### Stable lists of cells -/

/-- A list of cells from which no positive cell is missing without a stronger one in its row or
column. -/
structure Stable (w : Cell → Nat) (cells : List Cell) : Prop where
  positive : ∀ p ∈ cells, 0 < w p
  apart : cells.Pairwise Apart
  complete : ∀ p, 0 < w p → p ∈ cells ∨ ∃ q ∈ cells, Blocks w q p

/-- Cells of a list without conflicts that share a row or a column are equal. -/
theorem eq_of_not_apart {cells : List Cell} (h : cells.Pairwise Apart) {p q : Cell}
    (hp : p ∈ cells) (hq : q ∈ cells) (hpq : ¬ Apart p q) : p = q := by
  by_contra hne
  exact hpq (h.forall hp hq hne)

theorem nodup_of_apart {cells : List Cell} (h : cells.Pairwise Apart) : cells.Nodup :=
  h.imp fun hpq heq => hpq.1 (by rw [heq])

/-- Two stable lists have the same cells. The induction is on the strength of the cell: what
blocks it is stronger. -/
theorem Stable.mem_iff {w : Cell → Nat} {bound : Nat} (hw : ∀ p, w p ≤ bound) {S T : List Cell}
    (hS : Stable w S) (hT : Stable w T) (p : Cell) : p ∈ S ↔ p ∈ T := by
  -- Were `p` in one list only, the other would hold a stronger cell, which is then in both.
  have inside {S T : List Cell} (hS : Stable w S) (hT : Stable w T) (p : Cell)
      (ih : ∀ q, Blocks w q p → (q ∈ S ↔ q ∈ T)) (hp : p ∈ S) : p ∈ T := by
    rcases hT.complete p (hS.positive p hp) with h | ⟨q, hq, hblocks⟩
    · exact h
    · have hqS : q ∈ S := (ih q hblocks).mpr hq
      exact absurd (eq_of_not_apart hS.apart hqS hp hblocks.not_apart) hblocks.ne
  have step (p : Cell) (ih : ∀ q, Blocks w q p → (q ∈ S ↔ q ∈ T)) : p ∈ S ↔ p ∈ T :=
    ⟨inside hS hT p ih, inside hT hS p fun q hq => (ih q hq).symm⟩
  induction hroom : bound - w p using Nat.strong_induction_on generalizing p with
  | _ room ihRoom =>
      induction hsum : p.1 + p.2 using Nat.strong_induction_on generalizing p with
      | _ sum ihSum =>
          refine step p fun q hq => ?_
          rcases hq.rank with h | ⟨h, hlt⟩
          · exact ihRoom (bound - w q) (by have := hw q; omega) q rfl
          · exact ihSum (q.1 + q.2) (by omega) q (by omega) rfl

theorem Stable.perm {w : Cell → Nat} {bound : Nat} (hw : ∀ p, w p ≤ bound) {S T : List Cell}
    (hS : Stable w S) (hT : Stable w T) : S.Perm T :=
  (List.perm_ext_iff_of_nodup (nodup_of_apart hS.apart) (nodup_of_apart hT.apart)).mpr
    fun p => hS.mem_iff hw hT p

end Grid

end Likeness
