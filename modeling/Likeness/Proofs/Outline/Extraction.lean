import Likeness.Proofs.Outline.Rounds

/-!
# Likeness.Proofs.Outline.Extraction

The greedy selection without a table that changes.

The rows and columns that are still free are kept as two lists, and a round takes the first cell of
greatest ratio from their product (`Grid.extract`). Clearing a row and a column of a table has the
same effect as long as all cells are positive. The cells that are left are those of free rows and
columns, unchanged, and so both ways take the same cells (`Grid.picks_eq_extract`).
-/

namespace Likeness

namespace Grid

/-! ### Rounds over free rows and columns -/

/-- The first of the cells that no other one exceeds. -/
def firstGreatest (score : Cell → Score) (cells : List Cell) : Option Cell :=
  cells.find? fun p => ∀ q ∈ cells, ¬ (score p).ratio.lt (score q).ratio

/-- The cells of the free rows and columns in the order of reading. A cell with a total of zero is
skipped. -/
def candidates (score : Cell → Score) (rows cols : List Nat) : List Cell :=
  (rows ×ˢ cols).filter fun p => (score p).total ≠ 0

/-- The cells that some rounds take from the free rows and columns. -/
def extract (score : Cell → Score) : Nat → List Nat → List Nat → List Cell
  | 0, _, _ => []
  | rounds + 1, rows, cols =>
    match firstGreatest score (candidates score rows cols) with
    | none => []
    | some p => p :: extract score rounds (rows.erase p.1) (cols.erase p.2)

/-- Among positive cells, the first greatest is the one that is stronger than those before it and no
weaker than those after it. -/
theorem firstGreatest_eq {score : Cell → Score} {cells : List Cell} {p : Cell}
    (horder : cells.Pairwise Before) (hpos : ∀ q ∈ cells, 0 < (score q).weight) (hp : p ∈ cells)
    (hfirst : ∀ q ∈ cells, q ≠ p → (score q).weight < (score p).weight ∨
      (score q).weight = (score p).weight ∧ Before p q) :
    firstGreatest score cells = some p := by
  have hlt : ∀ q ∈ cells, ∀ r, (score q).ratio.lt (score r).ratio = true ↔
      (score q).weight < (score r).weight := by
    intro q hq r
    obtain ⟨hnumber, hrank⟩ := Binary64.of_weight_pos (hpos q hq)
    exact Binary64.lt_iff_weight_lt hnumber hrank
  obtain ⟨before, after, hsplit⟩ := List.append_of_mem hp
  refine List.find?_eq_some_iff_append.mpr ⟨?_, before, after, hsplit, fun q hq => ?_⟩
  · refine decide_eq_true fun q hq => ?_
    rw [hlt p hp q, Nat.not_lt]
    by_cases hqp : q = p
    · rw [hqp]
    · rcases hfirst q hq hqp with h | ⟨h, -⟩ <;> omega
  · rw [hsplit] at horder
    have hbefore : Before q p :=
      (List.pairwise_append.mp horder).2.2 q hq p List.mem_cons_self
    have hmem : q ∈ cells := hsplit ▸ List.mem_append_left _ hq
    have hqp : q ≠ p := fun heq => hbefore.asymm (heq ▸ hbefore)
    have hless : (score q).weight < (score p).weight :=
      (hfirst q hmem hqp).resolve_right fun h => hbefore.asymm h.2
    have hexceeded : ¬ ∀ r ∈ cells, ¬ (score q).ratio.lt (score r).ratio := fun hnone =>
      hnone p hp ((hlt q hmem p).mpr hless)
    simpa using hexceeded

/-! ### The table of a round -/

/-- What a table holds when some rows and columns are free: the scores of their cells, and nothing
outside of them. -/
structure Open (score : Cell → Score) (g : Grid Score) (rows cols : List Nat) : Prop where
  rows_lt : rows.Pairwise (· < ·)
  cols_lt : cols.Pairwise (· < ·)
  positive : ∀ p ∈ rows ×ˢ cols, 0 < (score p).weight
  cell_eq : ∀ p, g.cell p = if p ∈ rows ×ˢ cols then score p else 0

variable {score : Cell → Score} {g : Grid Score} {rows cols : List Nat}

theorem Open.weight_of_mem (h : Open score g rows cols) {p : Cell} (hp : p ∈ rows ×ˢ cols) :
    g.weight p = (score p).weight := by
  rw [weight, h.cell_eq, if_pos hp]

/-- Only cells of free rows and columns are left. -/
theorem Open.mem_of_weight_pos (h : Open score g rows cols) {p : Cell} (hp : 0 < g.weight p) :
    p ∈ rows ×ˢ cols := by
  by_contra hout
  rw [weight, h.cell_eq, if_neg hout, Score.weight_zero] at hp
  exact Nat.lt_irrefl 0 hp

theorem Open.candidates_eq (h : Open score g rows cols) :
    candidates score rows cols = rows ×ˢ cols := by
  refine List.filter_eq_self.mpr fun p hp => decide_eq_true fun hzero => ?_
  have hpos := h.positive p hp
  simp [Score.weight, Score.ratio, Fraction.ratio, Score.fraction, hzero] at hpos

/-- Clearing a cell closes its row and its column. -/
theorem Open.clear (h : Open score g rows cols) (p : Cell) :
    Open score (g.clear p.1 p.2) (rows.erase p.1) (cols.erase p.2) := by
  have hrows : rows.Nodup := h.rows_lt.imp fun hlt => hlt.ne
  have hcols : cols.Nodup := h.cols_lt.imp fun hlt => hlt.ne
  constructor
  · exact h.rows_lt.sublist List.erase_sublist
  · exact h.cols_lt.sublist List.erase_sublist
  · intro q hq
    obtain ⟨hrow, hcol⟩ := List.mem_product.mp hq
    exact h.positive q
      (List.mem_product.mpr ⟨List.mem_of_mem_erase hrow, List.mem_of_mem_erase hcol⟩)
  · intro q
    obtain ⟨i, j⟩ := q
    rw [cell_clear, h.cell_eq]
    simp only [List.mem_product, hrows.mem_erase_iff, hcols.mem_erase_iff]
    by_cases hi : i = p.1 <;> by_cases hj : j = p.2 <;> simp [hi, hj]

/-- A round takes the first greatest of the cells of free rows and columns. -/
theorem Open.firstGreatest_candidates (h : Open score g rows cols) (hrows : rows ≠ [])
    (hcols : cols ≠ []) : g.best ∈ rows ×ˢ cols ∧
      firstGreatest score (candidates score rows cols) = some g.best := by
  rcases g.best_cases with ⟨-, hzero⟩ | ⟨hpos, hfirst⟩
  · obtain ⟨i, hi⟩ := List.exists_mem_of_ne_nil rows hrows
    obtain ⟨j, hj⟩ := List.exists_mem_of_ne_nil cols hcols
    have hmem : (i, j) ∈ rows ×ˢ cols := List.mem_product.mpr ⟨hi, hj⟩
    have hpositive := h.positive _ hmem
    rw [← h.weight_of_mem hmem, hzero] at hpositive
    exact absurd hpositive (Nat.lt_irrefl 0)
  · have hbest := h.mem_of_weight_pos hpos
    refine ⟨hbest, ?_⟩
    rw [h.candidates_eq]
    refine firstGreatest_eq (pairwise_product h.rows_lt h.cols_lt) h.positive hbest ?_
    intro q hq hne
    rw [← h.weight_of_mem hq, ← h.weight_of_mem hbest]
    exact hfirst q hne

/-! ### All rounds -/

theorem Open.picks_eq {rounds : Nat} (h : Open score g rows cols) (hrows : rounds ≤ rows.length)
    (hcols : rounds ≤ cols.length) : picks rounds g = extract score rounds rows cols := by
  induction rounds generalizing g rows cols with
  | zero => rfl
  | succ rounds ih =>
      obtain ⟨hbest, hgreatest⟩ := h.firstGreatest_candidates
        (List.ne_nil_of_length_pos (by omega)) (List.ne_nil_of_length_pos (by omega))
      obtain ⟨hrow, hcol⟩ := List.mem_product.mp hbest
      have hlengthRows : (rows.erase g.best.1).length = rows.length - 1 :=
        List.length_erase_of_mem hrow
      have hlengthCols : (cols.erase g.best.2).length = cols.length - 1 :=
        List.length_erase_of_mem hcol
      rw [picks, extract, hgreatest, ih (h.clear g.best) (by omega) (by omega)]

/-- A positive table is open at all of its rows and columns. -/
theorem Positive.isOpen (hpos : g.Positive) :
    Open g.cell g (List.range g.rows) (List.range g.cols) := by
  refine ⟨List.pairwise_lt_range, List.pairwise_lt_range, ?_, ?_⟩
  · intro p hp
    obtain ⟨hrow, hcol⟩ := List.mem_product.mp hp
    exact hpos p.1 p.2 (List.mem_range.mp hrow) (List.mem_range.mp hcol)
  · intro p
    split
    · rfl
    next hout =>
      have hlt : ¬ (p.1 < g.rows ∧ p.2 < g.cols) := fun hin =>
        hout (List.mem_product.mpr ⟨List.mem_range.mpr hin.1, List.mem_range.mpr hin.2⟩)
      rw [cell, get?_of_not_lt hlt]
      rfl

/-- **The greedy selection**, by free rows and columns. -/
theorem picks_eq_extract (hpos : g.Positive) :
    picks g.rounds g = extract g.cell g.rounds (List.range g.rows) (List.range g.cols) := by
  refine hpos.isOpen.picks_eq ?_ ?_
  · rw [List.length_range]
    exact Nat.min_le_left ..
  · rw [List.length_range]
    exact Nat.min_le_right ..

end Grid

end Likeness
