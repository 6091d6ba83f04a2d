import Mathlib.Algebra.Order.BigOperators.Group.List
import Likeness.Proofs.Outline.Alignment

/-!
# Likeness.Proofs.Outline.Conservation

No node is lost in an alignment and none counts twice (`Outline.balanced_align`): what a score has
matched and what it has in total make up both outlines, with one more node on each side for the
parents.

The law is what keeps the selection going. A score that obeys it has a positive ratio
(`Balanced.weight_pos`), so the tables of all levels are positive and every round of a selection
takes a new cell.
-/

namespace Likeness

namespace Outline

/-- The parts of a score account for `m` nodes on one side and `n` on the other. -/
structure Balanced (s : Score) (m n : Nat) : Prop where
  conserved : s.matched + s.total = m + n + 2
  matched_pos : 1 ≤ s.matched
  matched_le_left : s.matched ≤ m + 1
  matched_le_right : s.matched ≤ n + 1

theorem Balanced.matched_le_total {s : Score} {m n : Nat} (h : Balanced s m n) :
    s.matched ≤ s.total := by
  have hconserved := h.conserved
  have hleft := h.matched_le_left
  have hright := h.matched_le_right
  omega

theorem Balanced.total_le {s : Score} {m n : Nat} (h : Balanced s m n) :
    s.total ≤ m + n + 1 := by
  have hconserved := h.conserved
  have hpos := h.matched_pos
  omega

/-- A score that is balanced has a positive ratio, unless the outlines are beyond all size. -/
theorem Balanced.weight_pos {s : Score} {m n : Nat} (h : Balanced s m n)
    (hsmall : m + n + 1 < 2 ^ 63) : 0 < s.weight :=
  Score.weight_pos h.matched_pos h.matched_le_total (Nat.lt_of_le_of_lt h.total_le hsmall)

/-! ### One level -/

/-- All cells of a table account for the bodies of their children. -/
def BalancedTable (a b : List Outline) (g : Grid Score) : Prop :=
  g.rows = a.length ∧ g.cols = b.length ∧ ∀ i j (hi : i < a.length) (hj : j < b.length),
    Balanced (g.cell (i, j)) (a[i]).length (b[j]).length

theorem childSize_of_lt {bodies : List Outline} {i : Nat} (h : i < bodies.length) :
    childSize bodies i = (bodies[i]).length + 1 := by
  simp [childSize, h]

theorem leftOver_eq_zero {bodies : List Outline} {taken : List Nat}
    (h : ∀ i < bodies.length, i ∈ taken) : leftOver bodies taken = 0 := by
  have hnone : (bodies.zipIdx.filter fun p => !taken.contains p.2) = [] := by
    refine List.filter_eq_nil_iff.mpr fun p hp => ?_
    have hlt := (List.mem_zipIdx' hp).1
    simpa using h p.2 hlt
  rw [leftOver_eq_sum, hnone]
  rfl

/-- A selection from a positive table adds up its cells and what is left over of both sides. -/
theorem combine_of_positive {a b : List Outline} {g : Grid Score} (hrows : g.rows = a.length)
    (hcols : g.cols = b.length) (hpos : g.Positive) :
    combine a b g = ⟨1 + (((Grid.picks g.rounds g).map g.cell).sum).matched,
      1 + (((Grid.picks g.rounds g).map g.cell).sum).total +
        leftOver a ((Grid.picks g.rounds g).map Prod.fst) +
        leftOver b ((Grid.picks g.rounds g).map Prod.snd)⟩ := by
  obtain ⟨hstable, hscore⟩ := Grid.stable_picks hpos
  have hlength := hstable.length_eq hpos
  have hrowsTaken : leftOver a g.greedy.rows = leftOver a ((Grid.picks g.rounds g).map Prod.fst) :=
    leftOver_congr fun i => by simp [Grid.mem_greedy_rows]
  have hcolsTaken : leftOver b g.greedy.cols = leftOver b ((Grid.picks g.rounds g).map Prod.snd) :=
    leftOver_congr fun i => by simp [Grid.mem_greedy_cols]
  -- The side with fewer children has nothing left over.
  have hall {side : List Outline} {taken : List Nat} (hsub : taken.Subperm (List.range side.length))
      (hle : side.length ≤ taken.length) : leftOver side taken = 0 := by
    have hperm := hsub.perm_of_length_le (by simpa using hle)
    exact leftOver_eq_zero fun i hi => hperm.mem_iff.mpr (List.mem_range.mpr hi)
  have hleft (h : a.length ≤ b.length) :
      leftOver a ((Grid.picks g.rounds g).map Prod.fst) = 0 := by
    refine hall (hrows ▸ Grid.rows_subperm hstable.positive hstable.apart) ?_
    rw [List.length_map, hlength, Grid.rounds, hrows, hcols, Nat.min_eq_left h]
  have hright (h : b.length ≤ a.length) :
      leftOver b ((Grid.picks g.rounds g).map Prod.snd) = 0 := by
    refine hall (hcols ▸ Grid.cols_subperm hstable.positive hstable.apart) ?_
    rw [List.length_map, hlength, Grid.rounds, hrows, hcols, Nat.min_eq_right h]
  simp only [combine, hscore, hrowsTaken, hcolsTaken, Score.matched_add, Score.total_add]
  rcases Nat.lt_trichotomy a.length b.length with h | h | h
  · simp only [if_neg (Nat.lt_asymm h), if_pos h, hleft h.le, Nat.add_zero]
  · simp only [h, Nat.lt_irrefl, if_false, hleft h.le, hright h.ge, Nat.add_zero]
  · simp only [if_pos h, hright h.le, Nat.add_zero]

theorem BalancedTable.positive {a b : List Outline} {g : Grid Score} (h : BalancedTable a b g)
    (hsmall : ∀ x ∈ a, ∀ y ∈ b, x.length + y.length + 1 < 2 ^ 63) : g.Positive := by
  obtain ⟨hrows, hcols, hcells⟩ := h
  intro i j hi hj
  have hi : i < a.length := hrows ▸ hi
  have hj : j < b.length := hcols ▸ hj
  exact (hcells i j hi hj).weight_pos (hsmall _ (List.getElem_mem hi) _ (List.getElem_mem hj))

/-- The cells taken account for the children taken, with their headings. -/
theorem BalancedTable.sum_picks {a b : List Outline} {g : Grid Score} (h : BalancedTable a b g)
    {taken : List Grid.Cell} (htaken : ∀ p ∈ taken, p.1 < a.length ∧ p.2 < b.length) :
    ((taken.map g.cell).sum).matched + ((taken.map g.cell).sum).total =
        ((taken.map Prod.fst).map (childSize a)).sum +
          ((taken.map Prod.snd).map (childSize b)).sum ∧
      ((taken.map g.cell).sum).matched ≤ ((taken.map Prod.fst).map (childSize a)).sum ∧
      ((taken.map g.cell).sum).matched ≤ ((taken.map Prod.snd).map (childSize b)).sum := by
  induction taken with
  | nil => simp
  | cons p taken ih =>
      obtain ⟨i, j⟩ := p
      obtain ⟨hp, hrest⟩ := List.forall_mem_cons.mp htaken
      have hcell := h.2.2 i j hp.1 hp.2
      have hconserved := hcell.conserved
      have hleft := hcell.matched_le_left
      have hright := hcell.matched_le_right
      obtain ⟨ihSum, ihLeft, ihRight⟩ := ih hrest
      simp only [List.map_cons, List.sum_cons, Score.matched_add, Score.total_add,
        childSize_of_lt hp.1, childSize_of_lt hp.2]
      refine ⟨?_, ?_, ?_⟩ <;> omega

/-- The score of one level is balanced when the scores of its table are. -/
theorem balanced_combine {a b : List Outline} {g : Grid Score} (h : BalancedTable a b g)
    (hpos : g.Positive) : Balanced (combine a b g)
      (a.map fun x => x.length + 1).sum (b.map fun y => y.length + 1).sum := by
  obtain ⟨hstable, -⟩ := Grid.stable_picks hpos
  have htaken : ∀ p ∈ Grid.picks g.rounds g, p.1 < a.length ∧ p.2 < b.length := fun p hp =>
    h.1 ▸ h.2.1 ▸ Grid.lt_of_weight_pos (hstable.positive p hp)
  obtain ⟨hsum, hsumLeft, hsumRight⟩ := h.sum_picks htaken
  have hleft := leftOver_add_taken a (List.pairwise_map.mpr (hstable.apart.imp And.left))
    (List.forall_mem_map.mpr fun p hp => (htaken p hp).1)
  have hright := leftOver_add_taken b (List.pairwise_map.mpr (hstable.apart.imp And.right))
    (List.forall_mem_map.mpr fun p hp => (htaken p hp).2)
  rw [combine_of_positive h.1 h.2.1 hpos]
  constructor
  · show 1 + _ + (1 + _ + _ + _) = _
    omega
  · exact Nat.le_add_right 1 _
  · show 1 + _ ≤ _
    omega
  · show 1 + _ ≤ _
    omega

/-! ### All levels -/

theorem cell_childScores (a b : Outline) (p : Grid.Cell) :
    (childScores a b).cell p =
      ((a.bodies[p.1]?).bind fun x => (b.bodies[p.2]?).map (align x)).getD 0 := by
  by_cases hne : a = [] ∨ b = []
  · rw [childScores, if_pos hne]
    rcases hne with rfl | rfl
    · rfl
    · cases a.bodies[p.1]? <;> rfl
  · rw [childScores, if_neg hne, Grid.cell, Grid.get?_ofLists]

theorem cell_childScores_of_lt {a b : Outline} {i j : Nat} (hi : i < a.bodies.length)
    (hj : j < b.bodies.length) :
    (childScores a b).cell (i, j) = align (a.bodies[i]) (b.bodies[j]) := by
  simp [cell_childScores, hi, hj]

theorem size_childScores {a b : Outline} (hne : ¬ (a = [] ∨ b = [])) :
    (childScores a b).rows = a.bodies.length ∧ (childScores a b).cols = b.bodies.length := by
  rw [childScores, if_neg hne]
  exact ⟨rfl, rfl⟩

/-- **Conservation.** Every node of both outlines is matched once or left over once. -/
theorem balanced_align {a b : Outline} (hsmall : a.length + b.length + 1 < 2 ^ 63) :
    Balanced (align a b) a.length b.length := by
  induction a, b using bodies_induction with
  | below a b ih =>
      rw [align_eq]
      split
      next hempty =>
        rcases hempty with rfl | rfl <;> constructor <;> simp <;> omega
      next hne =>
        obtain ⟨hrows, hcols⟩ := size_childScores hne
        have hbodies : ∀ x ∈ a.bodies, ∀ y ∈ b.bodies, x.length + y.length + 1 < 2 ^ 63 := by
          intro x hx y hy
          have hless := length_add_lt hx hy
          omega
        have htable : BalancedTable a.bodies b.bodies (childScores a b) := by
          refine ⟨hrows, hcols, fun i j hi hj => ?_⟩
          rw [cell_childScores_of_lt hi hj]
          have hx := List.getElem_mem hi
          have hy := List.getElem_mem hj
          exact ih _ hx _ hy (hbodies _ hx _ hy)
        rw [length_eq_sum a, length_eq_sum b]
        exact balanced_combine htable (htable.positive hbodies)

theorem balancedTable_childScores {a b : Outline} (hne : ¬ (a = [] ∨ b = []))
    (hsmall : a.length + b.length + 1 < 2 ^ 63) :
    BalancedTable a.bodies b.bodies (childScores a b) := by
  obtain ⟨hrows, hcols⟩ := size_childScores hne
  refine ⟨hrows, hcols, fun i j hi hj => ?_⟩
  have hless := length_add_lt (List.getElem_mem hi) (List.getElem_mem hj)
  rw [cell_childScores_of_lt hi hj]
  exact balanced_align (by omega)

/-- The table of two outlines has no empty score. -/
theorem positive_childScores {a b : Outline} (hsmall : a.length + b.length + 1 < 2 ^ 63) :
    (childScores a b).Positive := by
  by_cases hne : a = [] ∨ b = []
  · rw [childScores, if_pos hne]
    exact fun i j hi _ => absurd hi (Nat.not_lt_zero i)
  · refine (balancedTable_childScores hne hsmall).positive fun x hx y hy => ?_
    have hless := length_add_lt hx hy
    omega

end Outline

end Likeness
