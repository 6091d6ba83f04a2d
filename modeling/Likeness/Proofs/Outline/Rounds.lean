import Mathlib.Data.List.ProdSigma
import Likeness.Proofs.Outline.Selection

/-!
# Likeness.Proofs.Outline.Rounds

What the rounds of the selection take.

One round looks for its cell by going through the table in reading order (`Grid.best_cases`): it
finds the first of the strongest cells, or no positive cell at all. Clearing the row and the column
of that cell leaves the cells that are not in conflict with it, so by induction on the rounds the
cells taken form the stable list of the table (`Grid.exists_drawn`), and `Grid.greedy` is what that
list adds up to (`Grid.greedy_eq`).
-/

namespace Likeness

namespace Grid

/-! ### Reading order -/

/-- Row by row, and along each row from left to right. -/
def Before (p q : Cell) : Prop := p.1 < q.1 ∨ p.1 = q.1 ∧ p.2 < q.2

theorem mem_positions {rows cols : Nat} {p : Cell} :
    p ∈ positions rows cols ↔ p.1 < rows ∧ p.2 < cols := by
  obtain ⟨i, j⟩ := p
  simp [positions]

theorem Before.asymm {p q : Cell} (h : Before p q) : ¬ Before q p := by
  unfold Before at *
  omega

/-- Rows and columns in order give cells in the order of reading. -/
theorem pairwise_product {rows cols : List Nat} (hrows : rows.Pairwise (· < ·))
    (hcols : cols.Pairwise (· < ·)) : (rows ×ˢ cols).Pairwise Before := by
  refine List.pairwise_flatMap.mpr ⟨fun i _ => ?_, ?_⟩
  · exact List.pairwise_map.mpr (hcols.imp fun h => .inr ⟨rfl, h⟩)
  · refine hrows.imp fun h p hp q hq => .inl ?_
    obtain ⟨_, -, rfl⟩ := List.mem_map.mp hp
    obtain ⟨_, -, rfl⟩ := List.mem_map.mp hq
    exact h

theorem pairwise_positions (rows cols : Nat) : (positions rows cols).Pairwise Before :=
  pairwise_product List.pairwise_lt_range List.pairwise_lt_range

/-- Of two cells in conflict, the one read first also comes first in the row or column they
share. This is all that a selection ever uses of the order of reading. -/
theorem Blocks.of_before {w : Cell → Nat} {q p : Cell} (hshare : ¬ Apart q p)
    (h : w p < w q ∨ w p = w q ∧ Before q p) : Blocks w q p := by
  rcases Classical.not_and_iff_not_or_not.mp hshare with hrow | hcol
  · have hrow : q.1 = p.1 := not_not.mp hrow
    refine .inl ⟨hrow, h.imp_right fun ⟨heq, hbefore⟩ => ⟨heq, ?_⟩⟩
    rcases hbefore with h | ⟨-, h⟩
    · omega
    · exact h
  · have hcol : q.2 = p.2 := not_not.mp hcol
    refine .inr ⟨hcol, h.imp_right fun ⟨heq, hbefore⟩ => ⟨heq, ?_⟩⟩
    rcases hbefore with h | ⟨-, h⟩
    · exact h
    · omega

/-! ### One round -/

/-- The candidate after one more cell. -/
def visit (g : Grid Score) (c : Candidate) (p : Cell) : Candidate :=
  match g.get? p.1 p.2 with
  | none => c
  | some s => if c.ratio.lt s.ratio then ⟨p.1, p.2, s.ratio⟩ else c

theorem best_eq (g : Grid Score) :
    g.best = (((positions g.rows g.cols).foldl g.visit ⟨0, 0, .zero⟩).row,
      ((positions g.rows g.cols).foldl g.visit ⟨0, 0, .zero⟩).col) := rfl

/-- The candidate that leads after some cells: the start if none of them is positive, else the
first of the strongest. -/
structure Leads (g : Grid Score) (seen : List Cell) (c : Candidate) : Prop where
  number : c.ratio.isNaN = false ∧ 0 ≤ c.ratio.rank
  strongest : (c.row, c.col) = (0, 0) ∧ c.ratio.weight = 0 ∧ (∀ q ∈ seen, g.weight q = 0) ∨
    (c.row, c.col) ∈ seen ∧ 0 < c.ratio.weight ∧ g.weight (c.row, c.col) = c.ratio.weight ∧
      ∀ q ∈ seen, q ≠ (c.row, c.col) → g.weight q < c.ratio.weight ∨
        g.weight q = c.ratio.weight ∧ Before (c.row, c.col) q

theorem visit_of_none {g : Grid Score} {p : Cell} (h : g.get? p.1 p.2 = none) (c : Candidate) :
    g.weight p = 0 ∧ g.visit c p = c := by
  simp [weight, cell, visit, h]

theorem visit_of_some {g : Grid Score} {p : Cell} {s : Score} (h : g.get? p.1 p.2 = some s)
    {c : Candidate} (hc : c.ratio.isNaN = false ∧ 0 ≤ c.ratio.rank) :
    g.weight p = s.ratio.weight ∧
      g.visit c p = if c.ratio.weight < s.ratio.weight then ⟨p.1, p.2, s.ratio⟩ else c := by
  simp only [weight, cell, visit, h, Option.getD_some, Score.weight,
    Binary64.lt_iff_weight_lt hc.1 hc.2, true_and]

theorem Leads.visit {g : Grid Score} {seen : List Cell} {c : Candidate} (h : Leads g seen c)
    {p : Cell} (hp : ∀ q ∈ seen, Before q p) : Leads g (seen ++ [p]) (g.visit c p) := by
  -- A cell that does not beat the candidate leaves it in the lead.
  have stays (hle : g.weight p ≤ c.ratio.weight) : Leads g (seen ++ [p]) c := by
    refine ⟨h.number, ?_⟩
    rcases h.strongest with ⟨hstart, hzero, hall⟩ | ⟨hmem, hpos, heq, hall⟩
    · refine .inl ⟨hstart, hzero, fun q hq => ?_⟩
      rcases List.mem_append.mp hq with hq | hq
      · exact hall q hq
      · rw [List.mem_singleton.mp hq]
        omega
    · refine .inr ⟨List.mem_append_left _ hmem, hpos, heq, fun q hq hne => ?_⟩
      rcases List.mem_append.mp hq with hq | hq
      · exact hall q hq hne
      · rw [List.mem_singleton.mp hq]
        rcases Nat.lt_or_eq_of_le hle with hlt | heq
        · exact .inl hlt
        · exact .inr ⟨heq, hp _ hmem⟩
  cases hget : g.get? p.1 p.2 with
  | none =>
      obtain ⟨hweight, hvisit⟩ := visit_of_none hget c
      rw [hvisit]
      exact stays (by omega)
  | some s =>
      obtain ⟨hweight, hvisit⟩ := visit_of_some hget h.number
      rw [hvisit]
      split
      next hlt =>
        refine ⟨Binary64.of_weight_pos (Nat.zero_lt_of_lt hlt),
          .inr ⟨by simp, Nat.zero_lt_of_lt hlt, hweight, fun q hq hne => .inl ?_⟩⟩
        have hq : q ∈ seen := (List.mem_append.mp hq).resolve_right fun hq =>
          hne (List.mem_singleton.mp hq)
        rcases h.strongest with ⟨-, -, hall⟩ | ⟨-, -, heq, hall⟩
        · rw [hall q hq]
          exact Nat.zero_lt_of_lt hlt
        · by_cases hqc : q = (c.row, c.col)
          · rw [hqc, heq]
            exact hlt
          · rcases hall q hq hqc with h | ⟨h, -⟩ <;> exact lt_of_le_of_lt (by omega) hlt
      next hle => exact stays (by omega)

theorem Leads.foldl {g : Grid Score} {seen rest : List Cell} {c : Candidate} (h : Leads g seen c)
    (horder : (seen ++ rest).Pairwise Before) : Leads g (seen ++ rest) (rest.foldl g.visit c) := by
  induction rest generalizing seen c with
  | nil => simpa using h
  | cons p rest ih =>
      have hp : ∀ q ∈ seen, Before q p := fun q hq =>
        (List.pairwise_append.mp horder).2.2 q hq p List.mem_cons_self
      have hsplit : seen ++ p :: rest = seen ++ [p] ++ rest := by simp
      rw [hsplit] at horder ⊢
      exact ih (h.visit hp) horder

/-- A round finds no positive cell and goes back to the start, or it finds the first of the
strongest cells. -/
theorem best_cases (g : Grid Score) :
    (g.best = (0, 0) ∧ ∀ q, g.weight q = 0) ∨
      (0 < g.weight g.best ∧ ∀ q, q ≠ g.best →
        g.weight q < g.weight g.best ∨ g.weight q = g.weight g.best ∧ Before g.best q) := by
  have hstart : Leads g [] ⟨0, 0, .zero⟩ :=
    ⟨by decide, .inl ⟨rfl, Binary64.weight_zero, by simp⟩⟩
  have hlead : Leads g ([] ++ positions g.rows g.cols) _ := hstart.foldl (pairwise_positions _ _)
  rw [List.nil_append] at hlead
  rw [best_eq]
  generalize (positions g.rows g.cols).foldl g.visit ⟨0, 0, .zero⟩ = c at hlead
  -- A cell outside of the table has no weight, so it is enough to look at those inside.
  have outside (q : Cell) (hq : q ∉ positions g.rows g.cols) : g.weight q = 0 := by
    by_contra hne
    exact hq (mem_positions.mpr (lt_of_weight_pos (Nat.pos_of_ne_zero hne)))
  rcases hlead.strongest with ⟨hstart, -, hall⟩ | ⟨-, hpos, heq, hall⟩
  · refine .inl ⟨hstart, fun q => ?_⟩
    by_cases hq : q ∈ positions g.rows g.cols
    · exact hall q hq
    · exact outside q hq
  · refine .inr ⟨by rw [heq]; exact hpos, fun q hne => ?_⟩
    rw [heq]
    by_cases hq : q ∈ positions g.rows g.cols
    · exact hall q hq hne
    · exact .inl (by rw [outside q hq]; exact hpos)

/-! ### All rounds -/

/-- The positions that some rounds take. -/
def picks : Nat → Grid Score → List Cell
  | 0, _ => []
  | rounds + 1, g => g.best :: picks rounds (g.clear g.best.1 g.best.2)

/-- The scores that some rounds add up. -/
def harvest : Nat → Grid Score → Score
  | 0, _ => 0
  | rounds + 1, g => g.cell g.best + harvest rounds (g.clear g.best.1 g.best.2)

theorem select_eq (rounds : Nat) (g : Grid Score) (s : Selection) :
    select rounds g s = ⟨s.score + harvest rounds g,
      ((picks rounds g).map Prod.fst).reverse ++ s.rows,
      ((picks rounds g).map Prod.snd).reverse ++ s.cols⟩ := by
  induction rounds generalizing g s with
  | zero => simp [select, picks, harvest]
  | succ n ih => simp [select, picks, harvest, ih, cell, add_assoc]

/-- What rounds without a positive cell add: the first cell of the table, unless its row or its
column was taken before. -/
def spill (g : Grid Score) (rounds : Nat) (taken : List Cell) : Score :=
  if taken.length < rounds ∧ ∀ p ∈ taken, Apart p (0, 0) then g.cell (0, 0) else 0

/-- The rounds take a stable list of cells, and after it go back to the first cell. -/
structure Drawn (g : Grid Score) (rounds : Nat) (taken : List Cell) : Prop where
  stable : Stable g.weight taken
  picks_eq : picks rounds g = taken ++ List.replicate (rounds - taken.length) (0, 0)
  harvest_eq : harvest rounds g = (taken.map g.cell).sum + g.spill rounds taken

theorem weight_clear_eq_zero {g : Grid Score} {p q : Cell} (h : g.weight q = 0) :
    (g.clear p.1 p.2).weight q = 0 := by
  rw [weight_clear]
  split
  · rfl
  · exact h

/-! A table without positive cells: every round goes to the first cell, which counts once. -/

theorem best_of_zero {g : Grid Score} (h : ∀ q, g.weight q = 0) : g.best = (0, 0) := by
  rcases g.best_cases with ⟨hbest, -⟩ | ⟨hpos, -⟩
  · exact hbest
  · exact absurd (h g.best) hpos.ne'

theorem picks_of_zero {g : Grid Score} (h : ∀ q, g.weight q = 0) (rounds : Nat) :
    picks rounds g = List.replicate rounds (0, 0) := by
  induction rounds generalizing g with
  | zero => rfl
  | succ n ih => rw [picks, ih fun q => weight_clear_eq_zero (h q), best_of_zero h]; rfl

theorem harvest_of_zero {g : Grid Score} (h : ∀ q, g.weight q = 0) (rounds : Nat) :
    harvest rounds g = if 0 < rounds then g.cell (0, 0) else 0 := by
  induction rounds generalizing g with
  | zero => rfl
  | succ n ih =>
      have hcleared : (g.clear g.best.1 g.best.2).cell (0, 0) = 0 := by
        rw [cell_clear, best_of_zero h]
        rfl
      rw [harvest, ih fun q => weight_clear_eq_zero (h q), hcleared, best_of_zero h]
      simp

theorem drawn_nil {g : Grid Score} (h : ∀ q, g.weight q = 0) (rounds : Nat) :
    g.Drawn rounds [] where
  stable := ⟨by simp, .nil, fun p hp => absurd (h p) hp.ne'⟩
  picks_eq := picks_of_zero h rounds
  harvest_eq := by simp [harvest_of_zero h, spill]

/-- Positive cells after clearing are those before that are apart from the cell cleared. -/
theorem weight_clear_pos {g : Grid Score} {p q : Cell} :
    0 < (g.clear p.1 p.2).weight q ↔ Apart p q ∧ 0 < g.weight q := by
  rw [weight_clear]
  by_cases h : q.1 = p.1 ∨ q.2 = p.2
  · have : ¬ Apart p q := fun ha => h.elim (fun e => ha.1 e.symm) fun e => ha.2 e.symm
    simp [h, this]
  · have : Apart p q := ⟨fun e => h (.inl e.symm), fun e => h (.inr e.symm)⟩
    simp [h, this]

theorem cell_clear_of_apart {g : Grid Score} {p q : Cell} (h : Apart p q) :
    (g.clear p.1 p.2).cell q = g.cell q := by
  rw [cell_clear, if_neg]
  rintro (e | e)
  · exact h.1 e.symm
  · exact h.2 e.symm

/-- The cell of a round in front of what the later rounds take from the cleared table. -/
theorem Drawn.cons {g : Grid Score} {rounds : Nat} {taken : List Cell}
    (h : (g.clear g.best.1 g.best.2).Drawn rounds taken) (hpos : 0 < g.weight g.best)
    (hfirst : ∀ q, q ≠ g.best →
      g.weight q < g.weight g.best ∨ g.weight q = g.weight g.best ∧ Before g.best q) :
    g.Drawn (rounds + 1) (g.best :: taken) := by
  have hkept : ∀ q ∈ taken, Apart g.best q ∧ 0 < g.weight q := fun q hq =>
    weight_clear_pos.mp (h.stable.positive q hq)
  have hweight : ∀ q, Apart g.best q → (g.clear g.best.1 g.best.2).weight q = g.weight q :=
    fun q hq => by rw [weight, cell_clear_of_apart hq]; rfl
  constructor
  · constructor
    · intro p hp
      rcases List.mem_cons.mp hp with rfl | hp
      · exact hpos
      · exact (hkept p hp).2
    · exact List.pairwise_cons.mpr ⟨fun q hq => (hkept q hq).1, h.stable.apart⟩
    · intro p hp
      by_cases hap : Apart g.best p
      · rcases h.stable.complete p (weight_clear_pos.mpr ⟨hap, hp⟩) with hmem | ⟨q, hq, hblocks⟩
        · exact .inl (List.mem_cons_of_mem _ hmem)
        · refine .inr ⟨q, List.mem_cons_of_mem _ hq, ?_⟩
          simpa only [Blocks, hweight q (hkept q hq).1, hweight p hap] using hblocks
      · by_cases hbest : p = g.best
        · exact .inl (hbest ▸ List.mem_cons_self)
        · exact .inr ⟨g.best, List.mem_cons_self, Blocks.of_before hap (hfirst p hbest)⟩
  · rw [picks, h.picks_eq, List.length_cons, Nat.add_sub_add_right]
    rfl
  · have hsum : taken.map (g.clear g.best.1 g.best.2).cell = taken.map g.cell :=
      List.map_congr_left fun q hq => cell_clear_of_apart (hkept q hq).1
    have hspill : (g.clear g.best.1 g.best.2).spill rounds taken =
        g.spill (rounds + 1) (g.best :: taken) := by
      have hcond : (taken.length < rounds ∧ ∀ p ∈ taken, Apart p (0, 0)) ∧ Apart g.best (0, 0) ↔
          (g.best :: taken).length < rounds + 1 ∧ ∀ p ∈ g.best :: taken, Apart p (0, 0) := by
        rw [List.forall_mem_cons, List.length_cons, Nat.add_lt_add_iff_right, and_assoc,
          and_comm (b := Apart g.best (0, 0))]
      unfold spill
      rw [← if_congr hcond rfl rfl]
      by_cases h0 : Apart g.best (0, 0)
      · rw [cell_clear_of_apart h0]
        exact if_congr (iff_of_eq (by simp only [h0, and_true])) rfl rfl
      · have hzero : (g.clear g.best.1 g.best.2).cell (0, 0) = 0 := by
          rw [cell_clear, if_pos]
          rcases Classical.not_and_iff_not_or_not.mp h0 with e | e
          · exact .inl (not_not.mp e).symm
          · exact .inr (not_not.mp e).symm
        simp [hzero, h0]
    rw [harvest, h.harvest_eq, hsum, hspill, List.map_cons, List.sum_cons, add_assoc]

/-- As many rounds as a list without conflicts can be long take a stable list. -/
theorem exists_drawn (rounds : Nat) (g : Grid Score)
    (room : ∀ cells : List Cell, (∀ p ∈ cells, 0 < g.weight p) → cells.Pairwise Apart →
      cells.length ≤ rounds) : ∃ taken, g.Drawn rounds taken := by
  induction rounds generalizing g with
  | zero =>
      refine ⟨[], drawn_nil (fun q => ?_) 0⟩
      by_contra hne
      have := room [q] (by simpa using Nat.pos_of_ne_zero hne) (List.pairwise_singleton ..)
      simp at this
  | succ n ih =>
      rcases g.best_cases with ⟨-, hzero⟩ | ⟨hpos, hfirst⟩
      · exact ⟨[], drawn_nil hzero (n + 1)⟩
      · obtain ⟨taken, htaken⟩ := ih (g.clear g.best.1 g.best.2) fun cells hcells hapart => by
          have := room (g.best :: cells)
            (fun p hp => (List.mem_cons.mp hp).elim (fun e => e ▸ hpos) fun hp =>
              (weight_clear_pos.mp (hcells p hp)).2)
            (List.pairwise_cons.mpr ⟨fun q hq => (weight_clear_pos.mp (hcells q hq)).1, hapart⟩)
          simpa using this
        exact ⟨g.best :: taken, htaken.cons hpos hfirst⟩

/-! ### The greedy selection -/

/-- The number of rounds of the greedy selection. -/
def rounds (g : Grid Score) : Nat := min g.rows g.cols

/-- A list without conflicts has at most one cell for each row. -/
theorem rows_subperm {g : Grid Score} {cells : List Cell} (hcells : ∀ p ∈ cells, 0 < g.weight p)
    (hapart : cells.Pairwise Apart) : (cells.map Prod.fst).Subperm (List.range g.rows) := by
  refine List.subperm_of_subset (List.pairwise_map.mpr (hapart.imp And.left)) fun i hi => ?_
  obtain ⟨p, hp, rfl⟩ := List.mem_map.mp hi
  exact List.mem_range.mpr (lt_of_weight_pos (hcells p hp)).1

/-- A list without conflicts has at most one cell for each column. -/
theorem cols_subperm {g : Grid Score} {cells : List Cell} (hcells : ∀ p ∈ cells, 0 < g.weight p)
    (hapart : cells.Pairwise Apart) : (cells.map Prod.snd).Subperm (List.range g.cols) := by
  refine List.subperm_of_subset (List.pairwise_map.mpr (hapart.imp And.right)) fun j hj => ?_
  obtain ⟨p, hp, rfl⟩ := List.mem_map.mp hj
  exact List.mem_range.mpr (lt_of_weight_pos (hcells p hp)).2

theorem length_le_rounds {g : Grid Score} {cells : List Cell}
    (hcells : ∀ p ∈ cells, 0 < g.weight p) (hapart : cells.Pairwise Apart) :
    cells.length ≤ g.rounds := by
  have hrows := (rows_subperm hcells hapart).length_le
  have hcols := (cols_subperm hcells hapart).length_le
  simp only [List.length_map, List.length_range] at hrows hcols
  exact le_min hrows hcols

/-- The greedy selection adds up a stable list of cells, and what rounds without a positive cell
add. -/
theorem exists_greedy (g : Grid Score) :
    ∃ taken, Stable g.weight taken ∧ picks g.rounds g =
        taken ++ List.replicate (g.rounds - taken.length) (0, 0) ∧
      g.greedy.score = ⟨1, 1⟩ + ((taken.map g.cell).sum + g.spill g.rounds taken) := by
  obtain ⟨taken, h⟩ := g.exists_drawn g.rounds fun cells => length_le_rounds
  refine ⟨taken, h.stable, h.picks_eq, ?_⟩
  rw [greedy, select_eq, ← h.harvest_eq, rounds]

theorem mem_greedy_rows {g : Grid Score} {i : Nat} :
    i ∈ g.greedy.rows ↔ ∃ p ∈ picks g.rounds g, p.1 = i := by
  simp [greedy, select_eq, rounds]

theorem mem_greedy_cols {g : Grid Score} {j : Nat} :
    j ∈ g.greedy.cols ↔ ∃ p ∈ picks g.rounds g, p.2 = j := by
  simp [greedy, select_eq, rounds]

/-! ### Tables without an empty score -/

/-- Every cell inside the table has a positive weight. -/
def Positive (g : Grid Score) : Prop := ∀ i j, i < g.rows → j < g.cols → 0 < g.weight (i, j)

/-- In a positive table a stable list takes all rows or all columns: a cell of a free row and a
free column would be missing from it without being blocked. -/
theorem Stable.covers {g : Grid Score} {taken : List Cell} (h : Stable g.weight taken)
    (hg : g.Positive) : (∀ i < g.rows, i ∈ taken.map Prod.fst) ∨
      ∀ j < g.cols, j ∈ taken.map Prod.snd := by
  by_contra hfree
  push Not at hfree
  obtain ⟨⟨i, hi, hiFree⟩, j, hj, hjFree⟩ := hfree
  rcases h.complete (i, j) (hg i j hi hj) with hmem | ⟨q, hq, hblocks⟩
  · exact hiFree (List.mem_map_of_mem hmem)
  · rcases hblocks with ⟨hrow, -⟩ | ⟨hcol, -⟩
    · exact hiFree (List.mem_map.mpr ⟨q, hq, hrow⟩)
    · exact hjFree (List.mem_map.mpr ⟨q, hq, hcol⟩)

/-- In a positive table every round takes a new cell. -/
theorem Stable.length_eq {g : Grid Score} {taken : List Cell} (h : Stable g.weight taken)
    (hg : g.Positive) : taken.length = g.rounds := by
  refine Nat.le_antisymm (length_le_rounds h.positive h.apart) ?_
  rcases h.covers hg with hall | hall
  · have hrange : (List.range g.rows).Subperm (taken.map Prod.fst) :=
      List.subperm_of_subset List.nodup_range fun i hi => hall i (List.mem_range.mp hi)
    have hle : g.rows ≤ taken.length := by simpa using hrange.length_le
    exact le_trans (Nat.min_le_left ..) hle
  · have hrange : (List.range g.cols).Subperm (taken.map Prod.snd) :=
      List.subperm_of_subset List.nodup_range fun j hj => hall j (List.mem_range.mp hj)
    have hle : g.cols ≤ taken.length := by simpa using hrange.length_le
    exact le_trans (Nat.min_le_right ..) hle

/-- The greedy selection from a positive table: its picks are stable, and its score is theirs. -/
theorem stable_picks {g : Grid Score} (hg : g.Positive) :
    Stable g.weight (picks g.rounds g) ∧
      g.greedy.score = ⟨1, 1⟩ + ((picks g.rounds g).map g.cell).sum := by
  obtain ⟨taken, hstable, hpicks, hscore⟩ := g.exists_greedy
  have hlength := hstable.length_eq hg
  have htaken : picks g.rounds g = taken := by simpa [hlength] using hpicks
  have hspill : g.spill g.rounds taken = 0 := if_neg fun h => h.1.ne hlength
  rw [hspill, add_zero, ← htaken] at hscore
  exact ⟨htaken ▸ hstable, hscore⟩

end Grid

end Likeness
