import Likeness.Proofs.Number.Rounding
import Likeness.Proofs.Outline.Conservation
import Likeness.Proofs.Outline.Nesting
import Likeness.Proofs.Outline.Shape

/-!
# Likeness.Proofs.Outline.Identity

Which outlines the alignment cannot tell apart. A score is *full* when everything was matched, and
the score of two well nested outlines is full just when they have the same shape
(`Outline.align_full_iff`).

One level is full when all cells taken are full and no child of either side is left over
(`Outline.full_combine_iff`), so the cells taken pair off the children by their shapes. For the
converse the selection has to find such a pairing. Full cells have the greatest weight there is, and
they are the cells in which a row meets a column of its own class. If a row went without a full
cell, then so did a column of its class, because there are no fewer columns than rows of that class,
and nothing blocks the cell of the two (`Grid.Stable.exists_of_classes`).
-/

namespace Likeness

namespace Grid

/-! ### Rows and columns in classes -/

theorem count_map_eq_length_filter {κ : Type} [DecidableEq κ] (f : Nat → κ) (c : κ)
    (l : List Nat) : (l.map f).count c = (l.filter fun k => f k = c).length := by
  rw [List.count_eq_countP, List.countP_map, List.countP_eq_length_filter]
  rfl

/-- Some column of a class is left when fewer columns of the class are in use. -/
theorem exists_unused {κ : Type} [DecidableEq κ] {cols : Nat} {col : Nat → κ} {c : κ}
    {used : List Nat} (hlt : (used.map col).count c < ((List.range cols).map col).count c) :
    ∃ j < cols, col j = c ∧ j ∉ used := by
  by_contra hnone
  push Not at hnone
  have hsub : ((List.range cols).filter fun j => col j = c).Subperm
      (used.filter fun j => col j = c) := by
    refine List.subperm_of_subset (List.nodup_range.filter _) fun j hj => ?_
    obtain ⟨hj, hc⟩ := List.mem_filter.mp hj
    have hused := hnone j (List.mem_range.mp hj) (of_decide_eq_true hc)
    exact List.mem_filter.mpr ⟨hused, hc⟩
  have hle := hsub.length_le
  rw [← count_map_eq_length_filter, ← count_map_eq_length_filter] at hle
  omega

/-- Cells that lie apart and in which classes meet use as many rows of a class as columns. So when one
row more of its class is free, some column of that class is free too. -/
theorem exists_unused_of_apart {κ : Type} [DecidableEq κ] {full : List Cell} {rows cols : Nat}
    {row col : Nat → κ} (hapart : full.Pairwise Apart)
    (hinside : ∀ p ∈ full, p.1 < rows) (hsame : ∀ p ∈ full, row p.1 = col p.2)
    (hcount : ∀ c, ((List.range rows).map row).count c ≤ ((List.range cols).map col).count c)
    {i : Nat} (hi : i < rows) (hunused : i ∉ full.map Prod.fst) :
    ∃ j < cols, col j = row i ∧ j ∉ full.map Prod.snd := by
  have hclasses : (full.map Prod.snd).map col = (full.map Prod.fst).map row := by
    rw [List.map_map, List.map_map]
    exact List.map_congr_left fun p hp => (hsame p hp).symm
  have hrows : (i :: full.map Prod.fst).Subperm (List.range rows) := by
    refine List.subperm_of_subset (List.nodup_cons.mpr ⟨hunused, ?_⟩) ?_
    · exact List.pairwise_map.mpr (hapart.imp And.left)
    · refine List.cons_subset.mpr ⟨List.mem_range.mpr hi, fun k hk => ?_⟩
      obtain ⟨p, hp, rfl⟩ := List.mem_map.mp hk
      exact List.mem_range.mpr (hinside p hp)
  refine exists_unused ?_
  obtain ⟨l, hperm, hsub⟩ := hrows
  have hmore := (hsub.map row).count_le (row i)
  rw [(hperm.map row).count_eq, List.map_cons, List.count_cons_self] at hmore
  have hcols := hcount (row i)
  rw [hclasses]
  omega

/-- Let cells have the greatest weight just where a row meets a column of its own class. If every
class has at least as many columns as rows, a stable list gives each row a column of its class. -/
theorem Stable.exists_of_classes {κ : Type} [DecidableEq κ] {w : Cell → Nat} {taken : List Cell}
    {rows cols top : Nat} (h : Stable w taken) (htop : 0 < top)
    (hinside : ∀ p ∈ taken, p.1 < rows ∧ p.2 < cols) (hle : ∀ p ∈ taken, w p ≤ top)
    {row col : Nat → κ} (hclass : ∀ i < rows, ∀ j < cols, w (i, j) = top ↔ row i = col j)
    (hcount : ∀ c, ((List.range rows).map row).count c ≤ ((List.range cols).map col).count c) :
    ∀ i < rows, ∃ j, (i, j) ∈ taken ∧ row i = col j := by
  intro i hi
  by_contra hfree
  push Not at hfree
  -- The cells taken in which classes meet leave row `i` and a column of its class.
  let full := taken.filter fun p => w p = top
  have hfull : ∀ p ∈ full, p ∈ taken ∧ w p = top := fun p hp =>
    ⟨(List.mem_filter.mp hp).1, of_decide_eq_true (List.mem_filter.mp hp).2⟩
  have hsame : ∀ p ∈ full, row p.1 = col p.2 := by
    intro p hp
    obtain ⟨htaken, hweight⟩ := hfull p hp
    obtain ⟨hrow, hcol⟩ := hinside p htaken
    exact (hclass _ hrow _ hcol).mp hweight
  have hunused : i ∉ full.map Prod.fst := by
    intro hmem
    obtain ⟨⟨_, j⟩, hp, rfl⟩ := List.mem_map.mp hmem
    exact hfree j (hfull _ hp).1 (hsame _ hp)
  obtain ⟨j, hj, hcol, hunusedCol⟩ := exists_unused_of_apart (h.apart.filter _)
    (fun p hp => (hinside p (hfull p hp).1).1) hsame hcount hi hunused
  -- Nothing taken is stronger than the cell of row `i` and that column.
  have hweight : w (i, j) = top := (hclass i hi j hj).mpr hcol.symm
  have hnotFull (q : Cell) (hq : q ∈ taken) (hshare : q.1 = i ∨ q.2 = j) : w q ≠ top := by
    intro hqtop
    have hmem : q ∈ full := List.mem_filter.mpr ⟨hq, decide_eq_true hqtop⟩
    rcases hshare with hrow | hcol
    · exact hunused (List.mem_map.mpr ⟨q, hmem, hrow⟩)
    · exact hunusedCol (List.mem_map.mpr ⟨q, hmem, hcol⟩)
  rcases h.complete (i, j) (by omega) with hmem | ⟨q, hq, hblocks⟩
  · exact hfree j hmem hcol.symm
  · have hqle := hle q hq
    rcases hblocks with ⟨hrow, hstronger⟩ | ⟨hcol, hstronger⟩
    · have := hnotFull q hq (.inl hrow)
      omega
    · have := hnotFull q hq (.inr hcol)
      omega

/-- The selection from a positive table takes every row for a column of its class, if every class has at
least as many columns as rows. -/
theorem Positive.rows_paired {κ : Type} [DecidableEq κ] {g : Grid Score} (hpos : g.Positive)
    {top : Nat} (htop : 0 < top) (hle : ∀ i < g.rows, ∀ j < g.cols, g.weight (i, j) ≤ top)
    {row col : Nat → κ}
    (hclass : ∀ i < g.rows, ∀ j < g.cols, g.weight (i, j) = top ↔ row i = col j)
    (hcount : ∀ c, ((List.range g.rows).map row).count c ≤ ((List.range g.cols).map col).count c) :
    (∀ p ∈ picks g.rounds g, g.weight p = top) ∧
      ∀ i < g.rows, i ∈ (picks g.rounds g).map Prod.fst := by
  obtain ⟨hstable, -⟩ := stable_picks hpos
  have hinside : ∀ p ∈ picks g.rounds g, p.1 < g.rows ∧ p.2 < g.cols := fun p hp =>
    lt_of_weight_pos (hstable.positive p hp)
  have hrow := hstable.exists_of_classes htop hinside
    (fun p hp => hle _ (hinside p hp).1 _ (hinside p hp).2) hclass hcount
  constructor
  · -- The row of `p` is taken for one column only, so `p` is that cell.
    intro p hp
    obtain ⟨j, hmem, hsame⟩ := hrow p.1 (hinside p hp).1
    have heq : p = (p.1, j) := eq_of_not_apart hstable.apart hp hmem fun hapart => hapart.1 rfl
    rw [heq]
    exact (hclass _ (hinside _ hmem).1 _ (hinside _ hmem).2).mpr hsame
  · intro i hi
    obtain ⟨j, hmem, -⟩ := hrow i hi
    exact List.mem_map_of_mem hmem

/-- The selection from a positive table pairs off all rows and all columns by their classes, if and
only if there are as many rows as columns of each. -/
theorem Positive.pairs_classes_iff {κ : Type} [DecidableEq κ] {g : Grid Score} (hpos : g.Positive)
    {top : Nat} (htop : 0 < top) (hle : ∀ i < g.rows, ∀ j < g.cols, g.weight (i, j) ≤ top)
    {row col : Nat → κ}
    (hclass : ∀ i < g.rows, ∀ j < g.cols, g.weight (i, j) = top ↔ row i = col j) :
    ((∀ p ∈ picks g.rounds g, g.weight p = top) ∧
        (∀ i < g.rows, i ∈ (picks g.rounds g).map Prod.fst) ∧
        ∀ j < g.cols, j ∈ (picks g.rounds g).map Prod.snd) ↔
      ((List.range g.rows).map row).Perm ((List.range g.cols).map col) := by
  obtain ⟨hstable, -⟩ := stable_picks hpos
  have hrows := rows_subperm hstable.positive hstable.apart
  have hcols := cols_subperm hstable.positive hstable.apart
  constructor
  · rintro ⟨hfull, hallRows, hallCols⟩
    have hpairs : (picks g.rounds g).map (row ∘ Prod.fst) =
        (picks g.rounds g).map (col ∘ Prod.snd) := by
      refine List.map_congr_left fun p hp => ?_
      obtain ⟨hrow, hcol⟩ := lt_of_weight_pos (hstable.positive p hp)
      exact (hclass _ hrow _ hcol).mp (hfull p hp)
    have hpermRows : (List.range g.rows).Perm ((picks g.rounds g).map Prod.fst) :=
      (List.subperm_of_subset List.nodup_range fun i hi =>
        hallRows i (List.mem_range.mp hi)).antisymm hrows
    have hpermCols : (List.range g.cols).Perm ((picks g.rounds g).map Prod.snd) :=
      (List.subperm_of_subset List.nodup_range fun j hj =>
        hallCols j (List.mem_range.mp hj)).antisymm hcols
    refine (hpermRows.map row).trans (.trans ?_ (hpermCols.map col).symm)
    rw [List.map_map, List.map_map, hpairs]
  · intro hperm
    obtain ⟨hfull, hallRows⟩ := hpos.rows_paired htop hle hclass fun c => (hperm.count_eq c).le
    refine ⟨hfull, hallRows, fun j hj => ?_⟩
    have hlength : g.rows = g.cols := by simpa using hperm.length_eq
    have hall := hcols.perm_of_length_le (by
      rw [List.length_range, List.length_map, hstable.length_eq hpos, rounds, hlength,
        Nat.min_self])
    exact hall.mem_iff.mpr (List.mem_range.mpr hj)

end Grid

namespace Outline

open Grid

/-! ### Full scores -/

theorem leftOver_eq_zero_iff {bodies : List Outline} {taken : List Nat} :
    leftOver bodies taken = 0 ↔ ∀ i < bodies.length, i ∈ taken := by
  refine ⟨fun h i hi => ?_, leftOver_eq_zero⟩
  by_contra hfree
  rw [leftOver_eq_sum] at h
  have hmem : (bodies[i], i) ∈ bodies.zipIdx.filter fun p => !taken.contains p.2 := by
    simp [List.mem_zipIdx_iff_getElem?, hi, hfree]
  have hle := List.single_le_sum (by simp) _
    (List.mem_map_of_mem (f := fun p : Outline × Nat => p.1.length + 1) hmem)
  omega

/-- A sum of scores that are at most full is full when all of them are. -/
theorem sum_full_iff {α : Type} {score : α → Score} {l : List α}
    (hle : ∀ x ∈ l, (score x).matched ≤ (score x).total) :
    ((l.map score).sum).matched ≤ ((l.map score).sum).total ∧
      (((l.map score).sum).matched = ((l.map score).sum).total ↔
        ∀ x ∈ l, (score x).matched = (score x).total) := by
  induction l with
  | nil => simp
  | cons x l ih =>
      obtain ⟨hx, hl⟩ := List.forall_mem_cons.mp hle
      obtain ⟨ihLe, ihFull⟩ := ih hl
      simp only [List.map_cons, List.sum_cons, Score.matched_add, Score.total_add,
        List.forall_mem_cons, ← ihFull]
      constructor <;> omega

/-- **One level is full** when the cells taken are full and take all children of both sides. -/
theorem full_combine_iff {a b : List Outline} {g : Grid Score} (h : BalancedTable a b g)
    (hpos : g.Positive) : (combine a b g).matched = (combine a b g).total ↔
      (∀ p ∈ picks g.rounds g, (g.cell p).matched = (g.cell p).total) ∧
        (∀ i < a.length, i ∈ (picks g.rounds g).map Prod.fst) ∧
        ∀ j < b.length, j ∈ (picks g.rounds g).map Prod.snd := by
  obtain ⟨hrows, hcols, hcells⟩ := h
  obtain ⟨hstable, -⟩ := stable_picks hpos
  have hle : ∀ p ∈ picks g.rounds g, (g.cell p).matched ≤ (g.cell p).total := by
    rintro ⟨i, j⟩ hp
    obtain ⟨hi, hj⟩ := lt_of_weight_pos (hstable.positive _ hp)
    exact (hcells i j (hrows ▸ hi) (hcols ▸ hj)).matched_le_total
  obtain ⟨hsumLe, hsumFull⟩ := sum_full_iff hle
  rw [combine_of_positive hrows hcols hpos, ← hsumFull, ← leftOver_eq_zero_iff,
    ← leftOver_eq_zero_iff]
  simp only
  omega

/-- The full cells of a table are those of the greatest weight. -/
theorem BalancedTable.full_cells {a b : List Outline} {g : Grid Score} (h : BalancedTable a b g)
    (hsmall : ∀ x ∈ a, ∀ y ∈ b, x.length + y.length + 1 < 2 ^ 53) {i j : Nat} (hi : i < g.rows)
    (hj : j < g.cols) : g.weight (i, j) ≤ Binary64.one.weight ∧
      (g.weight (i, j) = Binary64.one.weight ↔ (g.cell (i, j)).matched = (g.cell (i, j)).total) := by
  obtain ⟨hrows, hcols, hcells⟩ := h
  have hi : i < a.length := hrows ▸ hi
  have hj : j < b.length := hcols ▸ hj
  have hcell := hcells i j hi hj
  have hlt := hsmall _ (List.getElem_mem hi) _ (List.getElem_mem hj)
  have htotal := hcell.total_le.trans hlt.le
  exact ⟨Score.weight_le_one hcell.matched_pos hcell.matched_le_total (by omega),
    Score.weight_eq_one_iff hcell.matched_pos hcell.matched_le_total htotal⟩

/-- **One level is full** when the children of both sides pair off by their classes, provided that
the full cells are those in which two children of one class meet. -/
theorem full_combine_iff_perm {κ : Type} [DecidableEq κ] {a b : List Outline} {g : Grid Score}
    (h : BalancedTable a b g)
    (hsmall : ∀ x ∈ a, ∀ y ∈ b, x.length + y.length + 1 < 2 ^ 53) {row col : Nat → κ}
    (hclass : ∀ i < a.length, ∀ j < b.length,
      (g.cell (i, j)).matched = (g.cell (i, j)).total ↔ row i = col j) :
    (combine a b g).matched = (combine a b g).total ↔
      ((List.range a.length).map row).Perm ((List.range b.length).map col) := by
  have hpos : g.Positive := h.positive fun x hx y hy => Nat.lt_trans (hsmall x hx y hy) (by decide)
  have hpairs := hpos.pairs_classes_iff (by decide)
    (fun i hi j hj => (h.full_cells hsmall hi hj).1)
    fun i hi j hj => (h.full_cells hsmall hi hj).2.trans (hclass i (h.1 ▸ hi) j (h.2.1 ▸ hj))
  rw [full_combine_iff h hpos, ← h.1, ← h.2.1, ← hpairs]
  refine and_congr_left fun _ => forall₂_congr fun p hp => ?_
  obtain ⟨hi, hj⟩ := lt_of_weight_pos ((stable_picks hpos).1.positive p hp)
  exact (h.full_cells hsmall hi hj).2.symm

/-! ### All levels -/

open Forest

/-- The shape of the children of a tree of a forest. -/
def childShapeAt (F : Forest) (i : Nat) : Shape := (childShapes F)[i]?.getD (shape [])

theorem childShapeAt_of_lt {F : Forest} {i : Nat} (h : i < F.length) :
    childShapeAt F i = shape (F[i]).children := by
  simp [childShapeAt, childShapes, h]

theorem map_childShapeAt (F : Forest) :
    (List.range F.length).map (childShapeAt F) = childShapes F := by
  refine List.ext_getElem (by simp [childShapes]) fun i hi hi' => ?_
  simp [childShapeAt, hi']

theorem shape_eq_nil_iff {F : Forest} : shape F = shape [] ↔ F = [] := by
  rw [shape_eq_iff]
  simp [childShapes]

/-- The score of two forests in preorder is full when they have the same shape. -/
theorem full_align_iff {F G : Forest} {depth depth' : Nat} (hF : Fits depth F)
    (hG : Fits depth' G)
    (hsmall : (flatten depth F).length + (flatten depth' G).length < 2 ^ 53) :
    (align (flatten depth F) (flatten depth' G)).matched =
        (align (flatten depth F) (flatten depth' G)).total ↔ shape F = shape G := by
  classical
  induction F, G using children_induction generalizing depth depth' with
  | below F G ih =>
      by_cases hne : flatten depth F = [] ∨ flatten depth' G = []
      · rw [align_eq, if_pos hne]
        rcases hne with hnil | hnil
        · have hempty : flatten depth' G = [] ↔ G = [] := flatten_eq_nil
          rw [flatten_eq_nil.mp hnil, eq_comm (a := shape []), shape_eq_nil_iff, ← hempty,
            ← List.length_eq_zero_iff]
          simp only [flatten_nil, List.length_nil]
          omega
        · have hempty : flatten depth F = [] ↔ F = [] := flatten_eq_nil
          rw [flatten_eq_nil.mp hnil, shape_eq_nil_iff, ← hempty, ← List.length_eq_zero_iff]
          simp only [flatten_nil, List.length_nil]
          omega
      · have htable := balancedTable_childScores hne (by omega)
        have hlt : ∀ x ∈ (flatten depth F).bodies, ∀ y ∈ (flatten depth' G).bodies,
            x.length + y.length + 1 < 2 ^ 53 := by
          intro x hx y hy
          exact Nat.lt_trans (length_add_lt hx hy) hsmall
        have hclass : ∀ i < (flatten depth F).bodies.length,
            ∀ j < (flatten depth' G).bodies.length,
            ((childScores (flatten depth F) (flatten depth' G)).cell (i, j)).matched =
                ((childScores (flatten depth F) (flatten depth' G)).cell (i, j)).total ↔
              childShapeAt F i = childShapeAt G j := by
          intro i hi j hj
          have hsum := hlt _ (List.getElem_mem hi) _ (List.getElem_mem hj)
          rw [cell_childScores_of_lt hi hj]
          simp only [bodies_flatten hF, bodies_flatten hG, List.length_map, List.getElem_map]
            at hi hj hsum ⊢
          rw [childShapeAt_of_lt hi, childShapeAt_of_lt hj]
          have hs := List.getElem_mem hi
          have ht := List.getElem_mem hj
          exact ih _ hs _ ht (hF.children hs) (hG.children ht) (by omega)
        rw [align_eq, if_neg hne, full_combine_iff_perm htable hlt hclass, shape_eq_iff,
          ← map_childShapeAt, ← map_childShapeAt, bodies_flatten hF, bodies_flatten hG,
          List.length_map, List.length_map]

/-- Two outlines are written down from forests that come from one another by putting siblings in
another order. The depths they start at and the labels do not matter. -/
def SameShape (a b : Outline) : Prop :=
  ∃ (depth depth' : Nat) (F G : Forest), Fits depth F ∧ Fits depth' G ∧
    flatten depth F = a ∧ flatten depth' G = b ∧ Reordering (unlabelled F) (unlabelled G)

/-- The score of two well nested outlines is full when they have the same shape. -/
theorem full_align_iff_sameShape {a b : Outline} (ha : a.WellNested) (hb : b.WellNested)
    (hsmall : a.length + b.length < 2 ^ 53) :
    (align a b).matched = (align a b).total ↔ SameShape a b := by
  constructor
  · intro h
    obtain ⟨depth, F, hF, rfl⟩ := wellNested_iff.mp ha
    obtain ⟨depth', G, hG, rfl⟩ := wellNested_iff.mp hb
    have hshape := shape_eq_iff_reordering.mp ((full_align_iff hF hG hsmall).mp h)
    exact ⟨depth, depth', F, G, hF, hG, rfl, rfl, hshape⟩
  · rintro ⟨depth, depth', F, G, hF, hG, rfl, rfl, hreordering⟩
    exact (full_align_iff hF hG hsmall).mpr (shape_eq_iff_reordering.mpr hreordering)

/-- **Identity.** Two well nested outlines are fully matched just when they have the same shape, and
then all their nodes are. A ratio tells this apart while the nodes can be counted in 53 bits. -/
theorem align_full_iff {a b : Outline} (ha : a.WellNested) (hb : b.WellNested)
    (hsmall : a.length + b.length < 2 ^ 53) :
    ((align a b).matched = (align a b).total ↔ SameShape a b) ∧
      ((align a b).ratio = .one ↔ SameShape a b) ∧
      (SameShape a b → align a b = ⟨a.length + 1, b.length + 1⟩) := by
  have hbalanced := balanced_align (a := a) (b := b) (by omega)
  have hfull := full_align_iff_sameShape ha hb hsmall
  refine ⟨hfull, ?_, fun hsame => ?_⟩
  · rw [← hfull]
    exact Score.ratio_eq_one_iff hbalanced.matched_pos hbalanced.matched_le_total
      (hbalanced.total_le.trans hsmall)
  · have heq := hfull.mpr hsame
    have hconserved := hbalanced.conserved
    have hleft := hbalanced.matched_le_left
    have hright := hbalanced.matched_le_right
    ext
    · show (align a b).matched = a.length + 1
      omega
    · show (align a b).total = b.length + 1
      omega

/-- Siblings shuffled at two levels, under other labels and from another depth. -/
theorem align_full_iff_shuffled :
    SameShape [⟨0, 1⟩, ⟨1, 2⟩, ⟨2, 3⟩, ⟨1, 3⟩, ⟨0, 1⟩, ⟨1, 2⟩]
        [⟨4, 0⟩, ⟨5, 0⟩, ⟨4, 7⟩, ⟨5, 7⟩, ⟨5, 0⟩, ⟨6, 0⟩] ∧
      align [⟨0, 1⟩, ⟨1, 2⟩, ⟨2, 3⟩, ⟨1, 3⟩, ⟨0, 1⟩, ⟨1, 2⟩]
        [⟨4, 0⟩, ⟨5, 0⟩, ⟨4, 7⟩, ⟨5, 7⟩, ⟨5, 0⟩, ⟨6, 0⟩] = ⟨7, 7⟩ := by
  obtain ⟨hfull, -, hparts⟩ := align_full_iff
    (a := [⟨0, 1⟩, ⟨1, 2⟩, ⟨2, 3⟩, ⟨1, 3⟩, ⟨0, 1⟩, ⟨1, 2⟩])
    (b := [⟨4, 0⟩, ⟨5, 0⟩, ⟨4, 7⟩, ⟨5, 7⟩, ⟨5, 0⟩, ⟨6, 0⟩]) (by decide) (by decide) (by decide)
  have hsame := hfull.mp (by decide +kernel)
  exact ⟨hsame, hparts hsame⟩

end Outline

end Likeness
