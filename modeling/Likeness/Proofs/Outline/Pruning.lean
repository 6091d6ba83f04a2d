import Mathlib.Algebra.Order.Field.Basic
import Mathlib.Algebra.Order.Field.Rat
import Mathlib.Data.List.Perm.Basic
import Mathlib.Data.Set.List
import Mathlib.Order.Monotone.Basic
import Mathlib.Tactic.Positivity
import Likeness.Proofs.Number.Separation
import Likeness.Proofs.Outline.Nesting
import Likeness.Proofs.Outline.TreeAlignment

/-!
# Likeness.Proofs.Outline.Pruning

What a child costs that goes without a match (`Outline.align_prune`): without it as much is matched, and
the total is less by its length.

Taking a child out of an outline takes a row out of its table. The rows below it move up, the cells are read
in other places, and the other side may now be the longer one. But what the selection takes is the stable
list of the table, and a stable list that keeps out of a row is stable without it
(`Grid.Stable.comap`). So the selection takes the same cells as before (`Grid.IsPart.picks_perm`), and the
law of conservation tells what is left over.
-/

namespace Likeness

namespace Grid

/-! ### Parts of a table -/

/-- A list of cells that is stable among all cells is stable among some rows and columns that hold it. -/
theorem Stable.comap {w : Cell → Nat} {row col : Nat → Nat} (hrow : StrictMono row)
    (hcol : StrictMono col) {taken : List Cell} (h : Stable w (taken.map (Prod.map row col))) :
    Stable (fun p => w (Prod.map row col p)) taken where
  positive p hp := h.positive _ (List.mem_map_of_mem hp)
  apart := (List.pairwise_map.mp h.apart).imp fun hapart =>
    ⟨fun heq => hapart.1 (congrArg row heq), fun heq => hapart.2 (congrArg col heq)⟩
  complete p hp := by
    rcases h.complete (Prod.map row col p) hp with hmem | ⟨_, hq, hblocks⟩
    · obtain ⟨q, hq, heq⟩ := List.mem_map.mp hmem
      obtain rfl := hrow.injective.prodMap hcol.injective heq
      exact .inl hq
    · obtain ⟨q, hmem, rfl⟩ := List.mem_map.mp hq
      refine .inr ⟨q, hmem, hblocks.imp ?_ ?_⟩
      · exact fun ⟨hsame, hstronger⟩ => ⟨hrow.injective hsame, hstronger.imp_right fun ⟨heq, hlt⟩ =>
          ⟨heq, hcol.lt_iff_lt.mp hlt⟩⟩
      · exact fun ⟨hsame, hstronger⟩ => ⟨hcol.injective hsame, hstronger.imp_right fun ⟨heq, hlt⟩ =>
          ⟨heq, hrow.lt_iff_lt.mp hlt⟩⟩

/-- A table consists of some rows and columns of another one, in their order. -/
structure IsPart (row col : Nat → Nat) (part g : Grid Score) : Prop where
  row_mono : StrictMono row
  col_mono : StrictMono col
  cell_eq : ∀ p, part.cell p = g.cell (Prod.map row col p)

/-- If all that is taken from a table lies in a part of it, the same is taken from the part alone. -/
theorem IsPart.picks_perm {row col : Nat → Nat} {part g : Grid Score} (h : IsPart row col part g)
    (hpart : part.Positive) (hg : g.Positive)
    (hinside : ∀ p ∈ picks g.rounds g, p ∈ Set.range (Prod.map row col)) :
    (picks g.rounds g).Perm ((picks part.rounds part).map (Prod.map row col)) := by
  obtain ⟨taken, htaken⟩ : picks g.rounds g ∈ Set.range (List.map (Prod.map row col)) := by
    rw [Set.range_list_map]
    exact hinside
  obtain ⟨hstable, -⟩ := stable_picks hg
  rw [← htaken] at hstable ⊢
  have hweight : part.weight = fun p => g.weight (Prod.map row col p) := by
    funext p
    rw [weight, h.cell_eq]
    rfl
  have hcomap := hstable.comap h.row_mono h.col_mono
  rw [← hweight] at hcomap
  exact (hcomap.perm part.weight_le (stable_picks hpart).1).map _

theorem IsPart.score_eq {row col : Nat → Nat} {part g : Grid Score} (h : IsPart row col part g)
    (hpart : part.Positive) (hg : g.Positive)
    (hinside : ∀ p ∈ picks g.rounds g, p ∈ Set.range (Prod.map row col)) :
    g.greedy.score = part.greedy.score := by
  have hcells : g.cell ∘ Prod.map row col = part.cell := funext fun p => (h.cell_eq p).symm
  rw [(stable_picks hg).2, (stable_picks hpart).2,
    ((h.picks_perm hpart hg hinside).map g.cell).sum_eq, List.map_map, hcells]

/-! ### One row or one column less -/

/-- The position that comes `k`-th when position `i` is left out. -/
def skip (i k : Nat) : Nat := if k < i then k else k + 1

theorem strictMono_skip (i : Nat) : StrictMono (skip i) := by
  intro k l hlt
  unfold skip
  split <;> split <;> omega

theorem mem_range_skip {i k : Nat} (h : k ≠ i) : k ∈ Set.range (skip i) := by
  rcases Nat.lt_or_gt_of_ne h with hlt | hgt
  · exact ⟨k, if_pos hlt⟩
  · exact ⟨k - 1, by unfold skip; split <;> omega⟩

theorem getElem?_eraseIdx_skip {α : Type} (l : List α) (i k : Nat) :
    (l.eraseIdx i)[k]? = l[skip i k]? := by
  rw [List.getElem?_eraseIdx, skip]
  split <;> rfl

end Grid

namespace Outline

open Grid

/-! ### Taking a child out -/

/-- The entries before a child and those after it. -/
def prune (o : Outline) (i : Nat) : Outline :=
  o.take (o.childStarts.getD i 0) ++ o.drop (o.childStarts.getD (i + 1) 0)

open Forest

/-- Taking a child out of the preorder of a forest is taking a tree out of the forest. -/
theorem prune_flatten {depth : Nat} {F : Forest} (hF : Fits depth F) {i : Nat} (h : i < F.length) :
    (flatten depth F).prune i = flatten depth (F.eraseIdx i) := by
  have hstart {k : Nat} (hk : k < F.length + 1) :
      (flatten depth F).childStarts.getD k 0 = (flatten depth (F.take k)).length := by
    simp [childStarts_flatten hF, Forest.length_flatten, hk]
  have hsplit (k : Nat) :
      flatten depth F = flatten depth (F.take k) ++ flatten depth (F.drop k) := by
    rw [← flatten_append, List.take_append_drop]
  rw [prune, hstart (Nat.lt_succ_of_lt h), hstart (Nat.succ_lt_succ h),
    List.eraseIdx_eq_take_drop_succ, flatten_append]
  congr 1
  · exact (congrArg (List.take _) (hsplit i)).trans List.take_left
  · exact (congrArg (List.drop _) (hsplit (i + 1))).trans List.drop_left

/-- Taking a child out of a well nested outline leaves a well nested outline with the other children. -/
theorem WellNested.prune {o : Outline} (h : o.WellNested) {i : Nat} (hi : i < o.bodies.length) :
    (o.prune i).WellNested ∧ (o.prune i).bodies = o.bodies.eraseIdx i := by
  obtain ⟨depth, F, hF, rfl⟩ := wellNested_iff.mp h
  rw [bodies_flatten hF, List.length_map] at hi
  have hrest : Fits depth (F.eraseIdx i) := by
    rw [← List.take_append_drop i F, fits_append] at hF
    rw [List.eraseIdx_eq_take_drop_succ, fits_append]
    refine ⟨hF.1, ?_⟩
    rw [List.drop_eq_getElem_cons hi] at hF
    exact hF.2.2
  rw [prune_flatten hF hi, bodies_flatten hF, bodies_flatten hrest, List.eraseIdx_map]
  exact ⟨wellNested_iff.mpr ⟨depth, _, hrest, rfl⟩, rfl⟩

theorem length_prune {o : Outline} (h : o.WellNested) {i : Nat} (hi : i < o.bodies.length) :
    o.length = (o.prune i).length + ((o.bodies[i]).length + 1) := by
  have hperm := (List.getElem_cons_eraseIdx_perm hi).map fun x => x.length + 1
  rw [length_eq_sum o, length_eq_sum (o.prune i), (h.prune hi).2, ← hperm.sum_eq, List.map_cons,
    List.sum_cons, Nat.add_comm]

/-! ### The table without a child -/

/-- What is matched is what the selection takes, on every level. -/
theorem matched_align (a b : Outline) :
    (align a b).matched = (childScores a b).greedy.score.matched := by
  rw [align_eq, childScores]
  split
  · rfl
  · rfl

theorem isPart_prune_left {a b : Outline} (ha : a.WellNested) {i : Nat} (hi : i < a.bodies.length) :
    IsPart (skip i) id (childScores (a.prune i) b) (childScores a b) where
  row_mono := strictMono_skip i
  col_mono := strictMono_id
  cell_eq p := by
    rw [cell_childScores, cell_childScores, (ha.prune hi).2, getElem?_eraseIdx_skip]
    rfl

theorem isPart_prune_right {a b : Outline} (hb : b.WellNested) {j : Nat} (hj : j < b.bodies.length) :
    IsPart id (skip j) (childScores a (b.prune j)) (childScores a b) where
  row_mono := strictMono_id
  col_mono := strictMono_skip j
  cell_eq p := by
    rw [cell_childScores, cell_childScores, (hb.prune hj).2, getElem?_eraseIdx_skip]
    rfl

/-! ### What a child costs -/

/-- Score `t` is what becomes of `s` if there are `n` nodes more and none of them is matched. Rounding keeps
the two ratios apart while totals have no more than 52 bits. -/
structure Penalised (n : Nat) (s t : Score) : Prop where
  matched_eq : t.matched = s.matched
  total_eq : t.total = s.total + n
  quotient_lt : (t.matched : ℚ) / t.total < s.matched / s.total
  ratio_lt : t.total ≤ 2 ^ 52 → t.ratio.lt s.ratio = true

theorem Balanced.penalised {s t : Score} {m n k l x : Nat} (hs : Balanced s m n) (ht : Balanced t k l)
    (hmatched : t.matched = s.matched) (hx : 0 < x) (hlength : k + l = m + n + x) :
    Penalised x s t := by
  have htotal : t.total = s.total + x := by
    have := hs.conserved
    have := ht.conserved
    omega
  have hpos := hs.matched_pos
  have hle := hs.matched_le_total
  refine ⟨hmatched, htotal, ?_, fun hsmall =>
    Score.ratio_lt_of_total_lt hpos hmatched hle (by omega) hsmall⟩
  rw [hmatched]
  refine div_lt_div_of_pos_left ?_ ?_ ?_ <;> exact_mod_cast (by omega)

/-- A pair of outlines with `x` entries more, of whose tables that of the first pair is a part, and all that
is taken lies in it. -/
theorem penalised_of_isPart {a b a' b' : Outline} {row col : Nat → Nat} {x : Nat}
    (h : IsPart row col (childScores a' b') (childScores a b))
    (hsmall : a.length + b.length + 1 < 2 ^ 63) (hx : 0 < x)
    (hlength : a.length + b.length = a'.length + b'.length + x)
    (hinside : ∀ p ∈ picks (childScores a b).rounds (childScores a b),
      p ∈ Set.range (Prod.map row col)) :
    Penalised x (align a' b') (align a b) := by
  have hsmaller : a'.length + b'.length + 1 < 2 ^ 63 := by omega
  have hscore := h.score_eq (positive_childScores hsmaller) (positive_childScores hsmall) hinside
  refine (balanced_align hsmaller).penalised (balanced_align hsmall) ?_ hx (by omega)
  rw [matched_align, matched_align, hscore]

/-- **Unmatched children.** A child of either side that the selection leaves unmatched adds nothing to what
is matched, and its length, heading included, to the total. So with it the ratio is smaller. The bound is
far above the number of entries that fit in memory. -/
theorem align_prune {a b : Outline} (ha : a.WellNested) (hb : b.WellNested)
    (hsmall : a.length + b.length + 1 < 2 ^ 63) :
    (∀ i (hi : i < a.bodies.length), i ∉ (childScores a b).greedy.rows → (a.prune i).WellNested ∧
        Penalised ((a.bodies[i]).length + 1) (align (a.prune i) b) (align a b)) ∧
      ∀ j (hj : j < b.bodies.length), j ∉ (childScores a b).greedy.cols → (b.prune j).WellNested ∧
        Penalised ((b.bodies[j]).length + 1) (align a (b.prune j)) (align a b) := by
  constructor
  · intro i hi hfree
    have hlength := length_prune ha hi
    refine ⟨(ha.prune hi).1, penalised_of_isPart (isPart_prune_left ha hi) hsmall (Nat.succ_pos _)
      (by omega) fun p hp => ?_⟩
    rw [Set.range_prodMap]
    exact ⟨mem_range_skip fun heq => hfree (mem_greedy_rows.mpr ⟨p, hp, heq⟩), Set.mem_range_self _⟩
  · intro j hj hfree
    have hlength := length_prune hb hj
    refine ⟨(hb.prune hj).1, penalised_of_isPart (isPart_prune_right hb hj) hsmall (Nat.succ_pos _)
      (by omega) fun p hp => ?_⟩
    rw [Set.range_prodMap]
    exact ⟨Set.mem_range_self _, mem_range_skip fun heq => hfree (mem_greedy_cols.mpr ⟨p, hp, heq⟩)⟩

/-- A single node between two nodes with one child each, which are matched around it. -/
theorem align_prune_between :
    1 ∉ (childScores [⟨1, 1⟩, ⟨2, 2⟩, ⟨1, 3⟩, ⟨1, 4⟩, ⟨2, 5⟩]
        [⟨0, 0⟩, ⟨1, 0⟩, ⟨0, 0⟩, ⟨1, 0⟩]).greedy.rows ∧
      Penalised 1 (align [⟨1, 1⟩, ⟨2, 2⟩, ⟨1, 4⟩, ⟨2, 5⟩] [⟨0, 0⟩, ⟨1, 0⟩, ⟨0, 0⟩, ⟨1, 0⟩])
        (align [⟨1, 1⟩, ⟨2, 2⟩, ⟨1, 3⟩, ⟨1, 4⟩, ⟨2, 5⟩] [⟨0, 0⟩, ⟨1, 0⟩, ⟨0, 0⟩, ⟨1, 0⟩]) := by
  have hfree : 1 ∉ (childScores [⟨1, 1⟩, ⟨2, 2⟩, ⟨1, 3⟩, ⟨1, 4⟩, ⟨2, 5⟩]
      [⟨0, 0⟩, ⟨1, 0⟩, ⟨0, 0⟩, ⟨1, 0⟩]).greedy.rows := by decide +kernel
  have hbodies : bodies [⟨1, 1⟩, ⟨2, 2⟩, ⟨1, 3⟩, ⟨1, 4⟩, ⟨2, 5⟩] = [[⟨2, 2⟩], [], [⟨2, 5⟩]] := by
    decide +kernel
  have hpruned : prune [⟨1, 1⟩, ⟨2, 2⟩, ⟨1, 3⟩, ⟨1, 4⟩, ⟨2, 5⟩] 1 =
      [⟨1, 1⟩, ⟨2, 2⟩, ⟨1, 4⟩, ⟨2, 5⟩] := by decide
  have hcost := ((align_prune (by decide) (by decide) (by decide)).1 1 (by decide +kernel) hfree).2
  simp only [hpruned, hbodies] at hcost
  exact ⟨hfree, hcost⟩

end Outline

end Likeness
