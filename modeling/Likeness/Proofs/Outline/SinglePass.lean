import Likeness.Proofs.Number.Separation
import Likeness.Proofs.Ordered
import Likeness.Proofs.Outline.Extraction
import Likeness.Proofs.Outline.Limits

/-!
# Likeness.Proofs.Outline.SinglePass

The greedy selection in one pass.

Instead of looking for a greatest cell in every round, the cells can be ranked once, by their ratio and
then in the order of reading, and gone through once: a cell is taken if its row and its column are still
free (`Grid.onePass`). On a table of positive cells this takes the cells of the rounds, and in the same
order (`Grid.greedy_eq_onePass`).

The induction is on the cells of the pass. What is kept is that the table of the rounds is open at the
free rows and columns (`Grid.Open`) and that all its cells are still to come. A free cell at the front is
then ahead of all others that are free, so it is the one that the next round takes.
-/

namespace Likeness

namespace Grid

/-! ### Ranking -/

/-- A cell of greater ratio comes first, and of equal ratios the one that is read first. -/
def Ahead (score : Cell → Score) (p q : Cell) : Prop :=
  (score q).ratio.lt (score p).ratio = true ∨
    (score p).ratio.lt (score q).ratio = false ∧ Before p q

instance (p q : Cell) : Decidable (Before p q) := inferInstanceAs (Decidable (_ ∨ _))

instance (score : Cell → Score) (p q : Cell) : Decidable (Ahead score p q) :=
  inferInstanceAs (Decidable (_ ∨ _))

/-- The cells of a table in the order in which a single pass looks at them. -/
def ranking (g : Grid Score) : List Cell :=
  (positions g.rows g.cols).mergeSort fun p q => !decide (Ahead g.cell q p)

/-- Goes through some cells once, and takes a cell if its row and its column are still free. -/
def takeFree : List Cell → List Nat → List Nat → List Cell
  | [], _, _ => []
  | p :: cells, rows, cols =>
    if p.1 ∈ rows ∧ p.2 ∈ cols then p :: takeFree cells (rows.erase p.1) (cols.erase p.2)
    else takeFree cells rows cols

/-- The cells that a single pass takes. -/
def onePass (g : Grid Score) : List Cell :=
  takeFree g.ranking (List.range g.rows) (List.range g.cols)

variable {score : Cell → Score} {g : Grid Score} {rows cols : List Nat} {p q : Cell}

/-- Inside and outside of a positive table there are only ratios that compare like their weights. -/
theorem Positive.number (hg : g.Positive) (p : Cell) :
    (g.cell p).ratio.isNaN = false ∧ 0 ≤ (g.cell p).ratio.rank := by
  by_cases hin : p.1 < g.rows ∧ p.2 < g.cols
  · exact Binary64.of_weight_pos (hg p.1 p.2 hin.1 hin.2)
  · rw [cell, get?_of_not_lt hin]
    decide

theorem Positive.ahead_iff (hg : g.Positive) : Ahead g.cell p q ↔
    g.weight q < g.weight p ∨ g.weight q = g.weight p ∧ Before p q := by
  obtain ⟨hp, hp'⟩ := hg.number p
  obtain ⟨hq, hq'⟩ := hg.number q
  have hahead : Ahead g.cell p q ↔ g.weight q < g.weight p ∨ ¬ g.weight p < g.weight q ∧ Before p q := by
    rw [Ahead, Binary64.lt_iff_weight_lt hq hq', ← Bool.not_eq_true, Binary64.lt_iff_weight_lt hp hp']
    rfl
  rw [hahead]
  constructor
  · rintro (hlt | ⟨hle, hbefore⟩)
    · exact .inl hlt
    · exact (Nat.lt_or_eq_of_le (Nat.not_lt.mp hle)).imp_right fun heq => ⟨heq, hbefore⟩
  · rintro (hlt | ⟨heq, hbefore⟩)
    · exact .inl hlt
    · exact .inr ⟨by omega, hbefore⟩

theorem Positive.ahead_asymm (hg : g.Positive) (h : Ahead g.cell p q) : ¬ Ahead g.cell q p := by
  simp only [hg.ahead_iff, Before] at *
  omega

theorem perm_ranking (g : Grid Score) : g.ranking.Perm (positions g.rows g.cols) :=
  List.mergeSort_perm _ _

theorem mem_ranking : p ∈ g.ranking ↔ p.1 < g.rows ∧ p.2 < g.cols :=
  g.perm_ranking.mem_iff.trans mem_positions

/-- The ranking is sorted: by falling ratio, then by row, then by column. -/
theorem Positive.pairwise_ranking (hg : g.Positive) : g.ranking.Pairwise (Ahead g.cell) := by
  have hsorted : g.ranking.Pairwise fun p q => decide (Ahead g.cell p q) = true := by
    refine Ordered.pairwise_mergeSort ?_ ?_ ((pairwise_positions g.rows g.cols).imp ?_)
    · intro p q h
      simp only [decide_eq_true_eq, decide_eq_false_iff_not, hg.ahead_iff, Before] at h ⊢
      omega
    · intro p q r hpq hqr
      simp only [decide_eq_false_iff_not, hg.ahead_iff, Before] at hpq hqr ⊢
      omega
    · intro p q h
      simp only [decide_eq_true_eq, hg.ahead_iff, Before] at h ⊢
      omega
  exact hsorted.imp of_decide_eq_true

/-! ### The rounds of a positive table -/

/-- The table that some rounds leave behind. -/
def afterRounds : Nat → Grid Score → Grid Score
  | 0, g => g
  | rounds + 1, g => afterRounds rounds (g.clear g.best.1 g.best.2)

theorem getElem?_picks {k rounds : Nat} (h : k < rounds) (g : Grid Score) :
    (picks rounds g)[k]? = some (g.afterRounds k).best := by
  induction k generalizing rounds g with
  | zero =>
      obtain ⟨rounds, rfl⟩ := Nat.exists_eq_add_one_of_ne_zero h.ne'
      rfl
  | succ k ih =>
      obtain ⟨rounds, rfl⟩ := Nat.exists_eq_add_one_of_ne_zero (Nat.ne_zero_of_lt h)
      rw [picks, List.getElem?_cons_succ, ih (Nat.lt_of_succ_lt_succ h)]
      rfl

/-- A round takes a cell that is free, and closes its row and its column. -/
theorem Open.mem_best (h : Open score g rows cols) (hrows : rows ≠ []) (hcols : cols ≠ []) :
    g.best ∈ rows ×ˢ cols := (h.firstGreatest_candidates hrows hcols).1

/-- As long as there are free rows and columns, one of each is closed in every round. -/
theorem Open.afterRounds {k : Nat} (h : Open score g rows cols) (hk : k ≤ min rows.length cols.length) :
    ∃ rows' cols', Open score (g.afterRounds k) rows' cols' ∧ rows'.length = rows.length - k ∧
      cols'.length = cols.length - k := by
  induction k generalizing g rows cols with
  | zero => exact ⟨rows, cols, h, rfl, rfl⟩
  | succ k ih =>
      obtain ⟨hrow, hcol⟩ := List.mem_product.mp <| h.mem_best
        (List.ne_nil_of_length_pos (by omega)) (List.ne_nil_of_length_pos (by omega))
      have hrows : (rows.erase g.best.1).length = rows.length - 1 := List.length_erase_of_mem hrow
      have hcols : (cols.erase g.best.2).length = cols.length - 1 := List.length_erase_of_mem hcol
      obtain ⟨rows', cols', hopen, hrows', hcols'⟩ := ih (h.clear g.best) (by omega)
      exact ⟨rows', cols', hopen, by omega, by omega⟩

/-- Every round takes a cell that no round before it has consumed. -/
theorem Positive.fresh {k : Nat} (hg : g.Positive) (hk : k < g.rounds) :
    (g.afterRounds k).cell (g.afterRounds k).best = g.cell (g.afterRounds k).best ∧
      0 < g.weight (g.afterRounds k).best := by
  have hsizes : k < g.rows ∧ k < g.cols := lt_min_iff.mp hk
  obtain ⟨rows, cols, hopen, hrows, hcols⟩ := hg.isOpen.afterRounds (k := k) (by simp; omega)
  rw [List.length_range] at hrows hcols
  have hbest := hopen.mem_best (List.ne_nil_of_length_pos (by omega))
    (List.ne_nil_of_length_pos (by omega))
  exact ⟨by rw [hopen.cell_eq, if_pos hbest], hopen.positive _ hbest⟩

/-! ### One pass for all rounds -/

/-- The round takes the free cell that is ahead of all others. -/
theorem Open.best_eq (h : Open score g rows cols) (hp : p ∈ rows ×ˢ cols)
    (hahead : ∀ q ∈ rows ×ˢ cols, q ≠ p → Ahead score p q) : g.best = p := by
  obtain ⟨hrow, hcol⟩ := List.mem_product.mp hp
  have hbest := h.mem_best (List.ne_nil_of_mem hrow) (List.ne_nil_of_mem hcol)
  by_contra hne
  have hpos : 0 < g.weight p := by
    rw [h.weight_of_mem hp]
    exact h.positive p hp
  have hnumber {q : Cell} (hq : q ∈ rows ×ˢ cols) (r : Cell) :
      (score q).ratio.lt (score r).ratio = true ↔ (score q).weight < (score r).weight := by
    obtain ⟨hnan, hrank⟩ := Binary64.of_weight_pos (h.positive q hq)
    exact Binary64.lt_iff_weight_lt hnan hrank
  have hstronger : g.weight p < g.weight g.best ∨ g.weight p = g.weight g.best ∧ Before g.best p := by
    rcases g.best_cases with ⟨-, hzero⟩ | ⟨-, hfirst⟩
    · exact absurd (hzero p) hpos.ne'
    · exact hfirst p (Ne.symm hne)
  rw [h.weight_of_mem hp, h.weight_of_mem hbest] at hstronger
  rcases hahead g.best hbest hne with hlt | ⟨hle, hbefore⟩
  · rw [hnumber hbest] at hlt
    rcases hstronger with h | ⟨h, -⟩ <;> omega
  · rw [← Bool.not_eq_true, hnumber hp] at hle
    rcases hstronger with h | ⟨-, h⟩
    · exact hle h
    · exact h.asymm hbefore

/-- A pass over cells that are sorted, and that all free ones are among, takes what the rounds take. -/
theorem Open.picks_eq_takeFree {cells : List Cell} (h : Open score g rows cols)
    (horder : cells.Pairwise (Ahead score)) (hall : ∀ p ∈ rows ×ˢ cols, p ∈ cells) :
    picks (min rows.length cols.length) g = takeFree cells rows cols := by
  induction cells generalizing g rows cols with
  | nil =>
      have hnone : min rows.length cols.length = 0 := by
        by_contra hsome
        obtain ⟨i, hi⟩ := List.exists_mem_of_ne_nil rows (List.ne_nil_of_length_pos (by omega))
        obtain ⟨j, hj⟩ := List.exists_mem_of_ne_nil cols (List.ne_nil_of_length_pos (by omega))
        exact List.not_mem_nil (hall (i, j) (List.mem_product.mpr ⟨hi, hj⟩))
      rw [hnone]
      rfl
  | cons p cells ih =>
      obtain ⟨hfirst, horder⟩ := List.pairwise_cons.mp horder
      rw [takeFree]
      by_cases hfree : p.1 ∈ rows ∧ p.2 ∈ cols
      · have hbest : g.best = p := h.best_eq (List.mem_product.mpr hfree) fun q hq hne =>
          hfirst q ((List.mem_cons.mp (hall q hq)).resolve_left hne)
        have hlengthRows : (rows.erase p.1).length = rows.length - 1 :=
          List.length_erase_of_mem hfree.1
        have hlengthCols : (cols.erase p.2).length = cols.length - 1 :=
          List.length_erase_of_mem hfree.2
        have hrows : 0 < rows.length := List.length_pos_of_mem hfree.1
        have hcols : 0 < cols.length := List.length_pos_of_mem hfree.2
        have hrounds : min rows.length cols.length =
            min (rows.erase p.1).length (cols.erase p.2).length + 1 := by omega
        rw [if_pos hfree, hrounds, picks, hbest, ih (h.clear p) horder fun q hq => ?_]
        -- Cells that are still free were so before, and are not the one that was taken.
        obtain ⟨hrow, hcol⟩ := List.mem_product.mp hq
        have hne : q ≠ p := by
          rintro rfl
          have hnodup : rows.Nodup := h.rows_lt.imp fun hlt => hlt.ne
          exact (hnodup.mem_erase_iff.mp hrow).1 rfl
        refine (List.mem_cons.mp (hall q ?_)).resolve_left hne
        exact List.mem_product.mpr ⟨List.mem_of_mem_erase hrow, List.mem_of_mem_erase hcol⟩
      · rw [if_neg hfree]
        refine ih h horder fun q hq => (List.mem_cons.mp (hall q hq)).resolve_left ?_
        rintro rfl
        exact hfree (List.mem_product.mp hq)

theorem Positive.picks_eq_onePass (hg : g.Positive) : picks g.rounds g = g.onePass := by
  have hpicks := hg.isOpen.picks_eq_takeFree hg.pairwise_ranking fun p hp => by
    exact mem_ranking.mpr (by simpa using List.mem_product.mp hp)
  rwa [List.length_range, List.length_range] at hpicks

/-! ### Tables of numbers -/

theorem Full.cell_mem (hfull : g.Full) (hp : p.1 < g.rows ∧ p.2 < g.cols) : g.cell p ∈ g.cells := by
  obtain ⟨s, hs⟩ := Option.isSome_iff_exists.mp (hfull.get?_isSome hp.1 hp.2)
  have hmem : s ∈ g.cells := by
    rw [get?, if_pos hp] at hs
    exact Array.mem_of_getElem? hs
  rwa [cell, hs]

/-- A full table of positive scores whose parts fit 64-bit integers is positive. -/
theorem Full.positive (hfull : g.Full) (hcells : ∀ s ∈ g.cells,
    0 < s.matched ∧ s.matched < 2 ^ 63 ∧ 0 < s.total ∧ s.total < 2 ^ 63) : g.Positive := by
  intro i j hi hj
  obtain ⟨hm, hm', ht, ht'⟩ := hcells _ (hfull.cell_mem (p := (i, j)) ⟨hi, hj⟩)
  exact Score.weight_pos_of_parts hm hm' ht ht'

/-- Cells with totals of no more than 26 bits are ranked by their exact quotients. -/
theorem Full.ahead_iff (hfull : g.Full) (hcells : ∀ s ∈ g.cells,
      0 < s.matched ∧ s.matched ≤ s.total ∧ s.total ≤ 2 ^ 26)
    (hp : p.1 < g.rows ∧ p.2 < g.cols) (hq : q.1 < g.rows ∧ q.2 < g.cols) : Ahead g.cell p q ↔
      (g.cell q).matched * (g.cell p).total < (g.cell p).matched * (g.cell q).total ∨
        (g.cell q).matched * (g.cell p).total = (g.cell p).matched * (g.cell q).total ∧
          Before p q := by
  obtain ⟨hpm, hpLe, hpSmall⟩ := hcells _ (hfull.cell_mem hp)
  obtain ⟨hqm, hqLe, hqSmall⟩ := hcells _ (hfull.cell_mem hq)
  rw [Ahead, Score.ratio_lt_iff hqm hqLe hqSmall hpm hpLe hpSmall, ← Bool.not_eq_true,
    Score.ratio_lt_iff hpm hpLe hpSmall hqm hqLe hqSmall, Nat.not_lt]
  constructor
  · rintro (hlt | ⟨hle, hbefore⟩)
    · exact .inl hlt
    · exact (Nat.lt_or_eq_of_le hle).imp_right fun heq => ⟨heq, hbefore⟩
  · rintro (hlt | ⟨heq, hbefore⟩)
    · exact .inl hlt
    · exact .inr ⟨heq.le, hbefore⟩

/-- **The rounds take what a single pass takes.** The pass goes through all cells of the table, sorted by
falling ratio, then by row, then by column, and takes a cell if its row and its column are still free. So
there are as many cells as the shorter side is long, no two of them in the same row or column.

No round falls back on the first cell for want of a positive one: what it takes still has its own score.
The selection has taken the rows and the columns of these cells and no others, and its score is that of
the parents together with theirs. Numbers of limited size make no difference, as long as the sum is one
of them. Nor does it make a difference that ratios are rounded, as long as totals have no more than 26
bits. -/
theorem greedy_eq_onePass (hfull : g.Full) (hcells : ∀ s ∈ g.cells,
    0 < s.matched ∧ s.matched < 2 ^ 63 ∧ 0 < s.total ∧ s.total < 2 ^ 63) :
    g.ranking.Perm (positions g.rows g.cols) ∧ g.ranking.Pairwise (Ahead g.cell) ∧
      g.onePass.length = min g.rows g.cols ∧ g.onePass.Pairwise Apart ∧
      (∀ p ∈ g.onePass, p.1 < g.rows ∧ p.2 < g.cols) ∧
      (∀ k < min g.rows g.cols, g.onePass[k]? = some (g.afterRounds k).best ∧
        (g.afterRounds k).cell (g.afterRounds k).best = g.cell (g.afterRounds k).best ∧
        Binary64.zero.lt (g.cell (g.afterRounds k).best).ratio = true) ∧
      g.greedy = ⟨⟨1, 1⟩ + (g.onePass.map g.cell).sum, (g.onePass.map Prod.fst).reverse,
        (g.onePass.map Prod.snd).reverse⟩ ∧
      (∀ limit, g.greedy.score.Below limit →
        selectWithin limit (min g.rows g.cols) g ⟨⟨1, 1⟩, [], []⟩ = some g.greedy) ∧
      ((∀ s ∈ g.cells, s.matched ≤ s.total ∧ s.total ≤ 2 ^ 26) →
        ∀ p ∈ g.ranking, ∀ q ∈ g.ranking, Ahead g.cell p q ↔
          (g.cell q).matched * (g.cell p).total < (g.cell p).matched * (g.cell q).total ∨
            (g.cell q).matched * (g.cell p).total = (g.cell p).matched * (g.cell q).total ∧
              Before p q) := by
  have hg := hfull.positive hcells
  obtain ⟨hstable, hscore⟩ := stable_picks hg
  have hlength := hstable.length_eq hg
  have hgreedy : g.greedy.rows = ((picks g.rounds g).map Prod.fst).reverse ∧
      g.greedy.cols = ((picks g.rounds g).map Prod.snd).reverse := by
    simp [greedy, select_eq, rounds]
  rw [hg.picks_eq_onePass] at hstable hscore hlength hgreedy
  refine ⟨g.perm_ranking, hg.pairwise_ranking, hlength, hstable.apart,
    fun p hp => lt_of_weight_pos (hstable.positive p hp), fun k hk => ?_, ?_,
    fun limit => selectWithin_eq, fun hsmall p hp q hq => ?_⟩
  · obtain ⟨hcell, hpos⟩ := hg.fresh hk
    refine ⟨?_, hcell, ?_⟩
    · rw [← hg.picks_eq_onePass]
      exact getElem?_picks hk g
    · rw [Binary64.lt_iff_weight_lt (by decide) (by decide), Binary64.weight_zero]
      exact hpos
  · rw [← hgreedy.1, ← hgreedy.2, ← hscore]
  · exact hfull.ahead_iff (fun s hs => ⟨(hcells s hs).1, hsmall s hs⟩) (mem_ranking.mp hp)
      (mem_ranking.mp hq)

/-- A table with ties, the greatest of which stands in the way of the next one. -/
theorem greedy_eq_onePass_tied :
    let g : Grid Score := ⟨2, 3, #[⟨1, 2⟩, ⟨2, 4⟩, ⟨1, 3⟩, ⟨3, 4⟩, ⟨1, 2⟩, ⟨6, 8⟩]⟩
    g.ranking = [(1, 0), (1, 2), (0, 0), (0, 1), (1, 1), (0, 2)] ∧ g.onePass = [(1, 0), (0, 1)] ∧
      g.greedy = ⟨⟨6, 9⟩, [0, 1], [1, 0]⟩ := by
  intro g
  have hcells : ∀ s ∈ g.cells,
      0 < s.matched ∧ s.matched < 2 ^ 63 ∧ 0 < s.total ∧ s.total < 2 ^ 63 := by decide
  obtain ⟨hperm, hsorted, -, -, -, -, hgreedy, -⟩ := greedy_eq_onePass (g := g) rfl hcells
  have hranking : g.ranking = [(1, 0), (1, 2), (0, 0), (0, 1), (1, 1), (0, 2)] := by
    have hlist : [(1, 0), (1, 2), (0, 0), (0, 1), (1, 1), (0, 2)].Pairwise (Ahead g.cell) := by
      decide +kernel
    have hg : g.Positive := Full.positive rfl hcells
    exact (hperm.trans (by decide)).eq_of_pairwise
      (fun p q _ _ hpq hqp => absurd hqp (hg.ahead_asymm hpq)) hsorted hlist
  have htaken : g.onePass = [(1, 0), (0, 1)] := by
    rw [onePass, hranking]
    decide
  rw [htaken] at hgreedy
  exact ⟨hranking, htaken, hgreedy⟩

end Grid

end Likeness
