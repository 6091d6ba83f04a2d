import Mathlib.Data.List.Basic
import Mathlib.Tactic.Ring
import Likeness.Outline.Grid

/-!
# Likeness.Proofs.Outline.Table

Tables read by position. A table is stored as one array in reading order; the lemmas here turn
every operation on it (`ofLists`, `clear`, `transpose`) into an equation about `Grid.get?`, so that
nothing after this module does arithmetic on the array.

Two *full* tables of the same size with the same cells are equal (`Grid.ext_get?`), which is how
all equations between tables are proved.
-/

namespace Likeness

namespace Grid

/-! ### Full tables -/

/-- The array holds exactly one cell for each position. -/
def Full (g : Grid α) : Prop := g.cells.size = g.rows * g.cols

/-- The index of a position lies inside the array. -/
theorem index_lt {rows cols i j : Nat} (hi : i < rows) (hj : j < cols) :
    i * cols + j < rows * cols := by
  calc i * cols + j < i * cols + cols := by omega
    _ = (i + 1) * cols := by ring
    _ ≤ rows * cols := Nat.mul_le_mul_right _ hi

theorem index_div {cols i j : Nat} (hj : j < cols) : (i * cols + j) / cols = i := by
  rw [Nat.mul_comm, Nat.mul_add_div (by omega), Nat.div_eq_of_lt hj, Nat.add_zero]

theorem index_mod {cols i j : Nat} (hj : j < cols) : (i * cols + j) % cols = j := by
  rw [Nat.mul_comm, Nat.mul_add_mod, Nat.mod_eq_of_lt hj]

theorem get?_of_not_lt {g : Grid α} {i j : Nat} (h : ¬ (i < g.rows ∧ j < g.cols)) :
    g.get? i j = none := if_neg h

/-- A full table has a cell at every position inside it. -/
theorem Full.get?_isSome {g : Grid α} (hg : g.Full) {i j : Nat} (hi : i < g.rows)
    (hj : j < g.cols) : (g.get? i j).isSome := by
  have hlt : i * g.cols + j < g.cells.size := hg ▸ index_lt hi hj
  simp [get?, hi, hj, hlt]

/-- Full tables of the same size are equal when their cells are. -/
theorem ext_get? {g h : Grid α} (hg : g.Full) (hh : h.Full) (rows : g.rows = h.rows)
    (cols : g.cols = h.cols) (cells : ∀ i j, i < g.rows → j < g.cols → g.get? i j = h.get? i j) :
    g = h := by
  obtain ⟨gRows, gCols, gCells⟩ := g
  obtain ⟨hRows, hCols, hCells⟩ := h
  obtain rfl : gRows = hRows := rows
  obtain rfl : gCols = hCols := cols
  have hsize : gCells.size = hCells.size := by rw [show gCells.size = _ from hg, ← hh]
  congr 1
  refine Array.ext_getElem? fun k => ?_
  by_cases hk : k < gRows * gCols
  · have hpos : 0 < gCols := Nat.pos_of_mul_pos_left (Nat.zero_lt_of_lt hk)
    have hi : k / gCols < gRows := Nat.div_lt_of_lt_mul (by rwa [Nat.mul_comm])
    have hj : k % gCols < gCols := Nat.mod_lt _ hpos
    have hcell := cells (k / gCols) (k % gCols) hi hj
    simpa only [get?, hi, hj, and_self, if_true, Nat.div_add_mod'] using hcell
  · rw [Array.getElem?_eq_none (by rw [show gCells.size = _ from hg]; simpa using hk),
      Array.getElem?_eq_none (by rw [← hsize, show gCells.size = _ from hg]; simpa using hk)]

/-! ### Tables over two lists -/

@[simp] theorem rows_ofLists (as : List α) (bs : List β) (f : α → β → γ) :
    (ofLists as bs f).rows = as.length := rfl

@[simp] theorem cols_ofLists (as : List α) (bs : List β) (f : α → β → γ) :
    (ofLists as bs f).cols = bs.length := rfl

theorem full_ofLists (as : List α) (bs : List β) (f : α → β → γ) : (ofLists as bs f).Full := by
  simp [Full, ofLists, List.length_flatMap]

/-- Row `i` of a table over two lists starts at index `i * bs.length`. -/
theorem getElem?_flatMap_map (as : List α) (bs : List β) (f : α → β → γ) (i j : Nat)
    (hj : j < bs.length) :
    (as.flatMap fun a => bs.map fun b => f a b)[i * bs.length + j]? =
      (as[i]?).bind fun a => (bs[j]?).map (f a) := by
  induction as generalizing i with
  | nil => simp
  | cons a as ih =>
      cases i with
      | zero =>
          rw [List.flatMap_cons, Nat.zero_mul, Nat.zero_add,
            List.getElem?_append_left (by simpa using hj)]
          simp
      | succ i =>
          have hindex : (i + 1) * bs.length + j = bs.length + (i * bs.length + j) := by ring
          rw [List.flatMap_cons, hindex, List.getElem?_append_right (by simp)]
          simpa using ih i

theorem get?_ofLists (as : List α) (bs : List β) (f : α → β → γ) (i j : Nat) :
    (ofLists as bs f).get? i j = (as[i]?).bind fun a => (bs[j]?).map (f a) := by
  by_cases h : i < as.length ∧ j < bs.length
  · simp only [get?, ofLists, if_pos h, List.getElem?_toArray]
    exact getElem?_flatMap_map as bs f i j h.2
  · rw [get?_of_not_lt h]
    rcases Classical.not_and_iff_not_or_not.mp h with h | h
    · rw [List.getElem?_eq_none (by omega)]; rfl
    · rw [List.getElem?_eq_none (l := bs) (by omega)]
      cases as[i]? <;> rfl

/-- A table does not change with the values its function takes off the two lists. -/
theorem ofLists_congr {as : List α} {bs : List β} {f g : α → β → γ}
    (h : ∀ a ∈ as, ∀ b ∈ bs, f a b = g a b) : ofLists as bs f = ofLists as bs g := by
  have hcells : (as.flatMap fun a => bs.map fun b => f a b) =
      as.flatMap fun a => bs.map fun b => g a b :=
    List.flatMap_congr fun a ha => List.map_congr_left fun b hb => h a ha b hb
  simp only [ofLists, hcells]

/-! ### Exchange of rows and columns -/

/-- The table with its rows and columns exchanged. -/
def transpose [Inhabited α] (g : Grid α) : Grid α :=
  ofLists (List.range g.cols) (List.range g.rows) fun j i => (g.get? i j).getD default

@[simp] theorem rows_transpose [Inhabited α] (g : Grid α) : g.transpose.rows = g.cols := by
  simp [transpose]

@[simp] theorem cols_transpose [Inhabited α] (g : Grid α) : g.transpose.cols = g.rows := by
  simp [transpose]

theorem full_transpose [Inhabited α] (g : Grid α) : g.transpose.Full := full_ofLists _ _ _

theorem get?_transpose [Inhabited α] {g : Grid α} (hg : g.Full) (i j : Nat) :
    g.transpose.get? j i = g.get? i j := by
  rw [transpose, get?_ofLists]
  by_cases h : i < g.rows ∧ j < g.cols
  · obtain ⟨a, ha⟩ := Option.isSome_iff_exists.mp (hg.get?_isSome h.1 h.2)
    simp [h.1, h.2, ha]
  · rw [get?_of_not_lt h]
    rcases Classical.not_and_iff_not_or_not.mp h with h | h
    · rw [List.getElem?_eq_none (l := List.range g.rows) (by simpa using h)]
      cases (List.range g.cols)[j]? <;> rfl
    · rw [List.getElem?_eq_none (by simpa using h)]; rfl

/-- Exchanging the two lists of a table exchanges its rows and columns. -/
theorem transpose_ofLists [Inhabited γ] (as : List α) (bs : List β) (f : α → β → γ) :
    (ofLists as bs f).transpose = ofLists bs as fun b a => f a b := by
  refine ext_get? (full_transpose _) (full_ofLists _ _ _) (by simp) (by simp) fun j i _ _ => ?_
  rw [get?_transpose (full_ofLists _ _ _), get?_ofLists, get?_ofLists]
  cases as[i]? <;> cases bs[j]? <;> rfl

/-! ### Clearing a row and a column -/

@[simp] theorem rows_clear (g : Grid Score) (row col : Nat) : (g.clear row col).rows = g.rows := rfl

@[simp] theorem cols_clear (g : Grid Score) (row col : Nat) : (g.clear row col).cols = g.cols := rfl

theorem get?_clear (g : Grid Score) (row col i j : Nat) :
    (g.clear row col).get? i j =
      (g.get? i j).map fun s => if i = row ∨ j = col then 0 else s := by
  by_cases h : i < g.rows ∧ j < g.cols
  · simp only [get?, clear, if_pos h, Array.getElem?_mapIdx, index_div h.2, index_mod h.2]
  · rw [get?_of_not_lt h, get?_of_not_lt (g := g.clear row col) h]; rfl

end Grid

end Likeness
