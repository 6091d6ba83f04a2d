import Likeness.Proofs.Outline.Alignment

/-!
# Likeness.Proofs.Outline.Symmetry

The alignment treats its two outlines alike (`Outline.align_comm`).

The table for the exchanged outlines is the transposed table, and reading that row by row is
reading the first one column by column. The order of reading only matters for cells that share a
row or a column, and along a row or a column both orders agree: the stable list of the transposed
table is the transposed stable list (`Grid.Stable.swap`), hence the same cells are taken, whichever
way ties fall.
-/

namespace Likeness

namespace Grid

/-! ### Selections from the transposed table -/

theorem cell_transpose {g : Grid Score} (hg : g.Full) (p : Cell) :
    g.transpose.cell p = g.cell p.swap := by
  unfold cell
  rw [get?_transpose hg]
  rfl

theorem Apart.swap {p q : Cell} (h : Apart p q) : Apart p.swap q.swap := ⟨h.2, h.1⟩

theorem apart_swap {p q : Cell} : Apart p.swap q.swap ↔ Apart p q :=
  ⟨fun h => ⟨h.2, h.1⟩, Apart.swap⟩

theorem Blocks.swap {w : Cell → Nat} {q p : Cell} (h : Blocks w q p) :
    Blocks (fun r => w r.swap) q.swap p.swap := by
  rcases h with ⟨hshare, h⟩ | ⟨hshare, h⟩
  · exact .inr ⟨hshare, by simpa using h⟩
  · exact .inl ⟨hshare, by simpa using h⟩

theorem Stable.swap {w : Cell → Nat} {cells : List Cell} (h : Stable w cells) :
    Stable (fun p => w p.swap) (cells.map Prod.swap) where
  positive p hp := by
    obtain ⟨q, hq, rfl⟩ := List.mem_map.mp hp
    simpa using h.positive q hq
  apart := List.pairwise_map.mpr (h.apart.imp Apart.swap)
  complete p hp := by
    rcases h.complete p.swap hp with hmem | ⟨q, hq, hblocks⟩
    · exact .inl (List.mem_map.mpr ⟨p.swap, hmem, Prod.swap_swap p⟩)
    · exact .inr ⟨q.swap, List.mem_map_of_mem hq, by simpa using hblocks.swap⟩

theorem spill_swap {g : Grid Score} (hg : g.Full) (rounds : Nat) {S T : List Cell}
    (h : T.Perm (S.map Prod.swap)) : g.transpose.spill rounds T = g.spill rounds S := by
  have hlength : T.length = S.length := by simpa using h.length_eq
  have hapart : (∀ p ∈ T, Apart p (0, 0)) ↔ ∀ p ∈ S, Apart p (0, 0) := by
    simp only [h.mem_iff, List.forall_mem_map]
    exact forall₂_congr fun p _ => apart_swap (q := (0, 0))
  rw [spill, spill, cell_transpose hg, hlength]
  exact if_congr (and_congr_right fun _ => hapart) rfl rfl

/-- The selections from a table and from the transposed table take the same positions and the same
score. -/
theorem greedy_transpose {g : Grid Score} (hg : g.Full) :
    g.transpose.greedy.score = g.greedy.score ∧
      (picks g.transpose.rounds g.transpose).Perm ((picks g.rounds g).map Prod.swap) := by
  obtain ⟨S, hS, hpicksS, hscoreS⟩ := g.exists_greedy
  obtain ⟨T, hT, hpicksT, hscoreT⟩ := g.transpose.exists_greedy
  have hrounds : g.transpose.rounds = g.rounds := by simp [rounds, Nat.min_comm]
  have hweight : g.transpose.weight = fun p => g.weight p.swap := by
    funext p
    rw [weight, cell_transpose hg]
    rfl
  have hperm : T.Perm (S.map Prod.swap) := by
    have hswap := hS.swap
    rw [← hweight] at hswap
    exact hT.perm g.transpose.weight_le hswap
  have hlength : T.length = S.length := by simpa using hperm.length_eq
  constructor
  · have hsum : (T.map g.transpose.cell).sum = (S.map g.cell).sum := by
      rw [(hperm.map g.transpose.cell).sum_eq, List.map_map]
      refine congrArg List.sum (List.map_congr_left fun p _ => ?_)
      rw [Function.comp_apply, cell_transpose hg, Prod.swap_swap]
    rw [hscoreT, hscoreS, hsum, hrounds, spill_swap hg g.rounds hperm]
  · rw [hpicksT, hpicksS, hrounds, hlength, List.map_append, List.map_replicate]
    exact hperm.append_right _

end Grid

namespace Outline

/-! ### The two outlines exchanged -/

/-- Children left over are paid for on the longer side, whichever that is. -/
theorem combine_transpose {a b : List Outline} {g : Grid Score} (hg : g.Full) :
    combine b a g.transpose = combine a b g := by
  obtain ⟨hscore, hpicks⟩ := Grid.greedy_transpose hg
  have hrows : leftOver b g.transpose.greedy.rows = leftOver b g.greedy.cols := by
    refine leftOver_congr fun i => ?_
    simp [Grid.mem_greedy_rows, Grid.mem_greedy_cols, hpicks.mem_iff]
  have hcols : leftOver a g.transpose.greedy.cols = leftOver a g.greedy.rows := by
    refine leftOver_congr fun i => ?_
    simp [Grid.mem_greedy_rows, Grid.mem_greedy_cols, hpicks.mem_iff]
  simp only [combine, hscore, hrows, hcols]
  rcases Nat.lt_trichotomy a.length b.length with h | h | h
  · rw [if_pos h, if_neg (Nat.lt_asymm h), if_pos h]
  · simp only [h, Nat.lt_irrefl, if_false]
  · rw [if_neg (Nat.lt_asymm h), if_pos h, if_pos h]

/-- **Symmetry.** Aligning two lists of entries, well nested or not, gives the same score in either
order, and the scores of their children form transposed tables. -/
theorem align_comm (a b : Outline) :
    align b a = align a b ∧ childScores b a = (childScores a b).transpose := by
  induction hn : a.length using Nat.strong_induction_on generalizing a b with
  | _ n ih =>
      have hcells : ∀ x ∈ b.bodies, ∀ y ∈ a.bodies, align x y = align y x := fun x _ y hy =>
        (ih y.length (hn ▸ length_of_mem_bodies hy) y x rfl).1
      have htable : childScores b a = (childScores a b).transpose := by
        unfold childScores
        by_cases h : a = [] ∨ b = []
        · rw [if_pos h, if_pos h.symm]
          rfl
        · rw [if_neg h, if_neg (mt Or.symm h), Grid.transpose_ofLists]
          exact Grid.ofLists_congr hcells
      refine ⟨?_, htable⟩
      rw [align_eq, align_eq a b, htable]
      by_cases h : a = [] ∨ b = []
      · rw [if_pos h, if_pos h.symm, Nat.add_comm b.length]
      · rw [if_neg h, if_neg (mt Or.symm h)]
        exact combine_transpose (full_childScores a b)

end Outline

end Likeness
