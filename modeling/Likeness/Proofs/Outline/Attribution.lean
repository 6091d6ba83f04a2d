import Mathlib.Order.Bounds.Basic
import Likeness.Outline.Matrix
import Likeness.Proofs.Outline.Identity
import Likeness.Proofs.Partial

/-!
# Likeness.Proofs.Outline.Attribution

To which declaration another one is attributed (`OutlineLikeness.bestMatches_ofOutlines`).

When every head has its row or column, the matrix of two outlines has the score of two children in the cell
where they meet, so all of its ratios are positive and no row is passed over. The search of a row keeps the
leftmost of the greatest ratios among the cells it has seen (`Matrix.Leads`), as only a greater ratio replaces
the one it has. A ratio of one is the greatest there is, and it stands where a child meets one of its own
shape.
-/

namespace Likeness

open Binary64

namespace Matrix

/-! ### The best column of a row -/

/-- A column has the greatest ratio of a row, and of the columns that have it, it is the leftmost. -/
structure Leads (row : List Fraction) (col : Nat) (r : Binary64) : Prop where
  here : (row[col]?).map Fraction.ratio = some r
  greatest : ∀ f ∈ row, f.ratio.le r = true
  leftmost : ∀ f ∈ row.take col, f.ratio.lt r = true

/-- All ratios of a row are above zero. -/
def Positive (row : List Fraction) : Prop := ∀ f ∈ row, 0 < f.ratio.weight

theorem lt_iff_of_pos {x y : Binary64} (hx : 0 < x.weight) : x.lt y = true ↔ x.weight < y.weight := by
  obtain ⟨hnumber, hpos⟩ := of_weight_pos hx
  exact lt_iff_weight_lt hnumber hpos

theorem le_iff_of_pos {x y : Binary64} (hx : 0 < x.weight) (hy : 0 < y.weight) :
    x.le y = true ↔ x.weight ≤ y.weight := by
  obtain ⟨hnumber, hpos⟩ := of_weight_pos hx
  obtain ⟨hnumber', hpos'⟩ := of_weight_pos hy
  exact le_iff_weight_le hnumber hpos hnumber' hpos'

variable {row done todo : List Fraction} {f : Fraction} {col : Nat} {r : Binary64}

theorem Leads.weight_pos (h : Leads row col r) (hpos : Positive row) : 0 < r.weight := by
  obtain ⟨f, hf, rfl⟩ := Option.map_eq_some_iff.mp h.here
  exact hpos f (List.mem_of_getElem? hf)

theorem Leads.col_lt (h : Leads row col r) : col < row.length := by
  obtain ⟨f, hf, -⟩ := Option.map_eq_some_iff.mp h.here
  exact (List.getElem?_eq_some_iff.mp hf).1

theorem leads_singleton (hpos : 0 < f.ratio.weight) : Leads [f] 0 f.ratio where
  here := rfl
  greatest g hg := by
    obtain rfl := List.mem_singleton.mp hg
    exact (le_iff_of_pos hpos hpos).mpr (Nat.le_refl _)
  leftmost := List.forall_mem_nil _

/-- A greater ratio takes the lead. -/
theorem Leads.overtaken (h : Leads row col r) (hpos : Positive (row ++ [f]))
    (hless : r.lt f.ratio = true) : Leads (row ++ [f]) row.length f.ratio := by
  obtain ⟨hrow, hf⟩ := List.forall_mem_append.mp hpos
  have hf := hf f (List.mem_singleton_self f)
  have hless := (lt_iff_of_pos (h.weight_pos hrow)).mp hless
  have hbelow : ∀ g ∈ row, g.ratio.weight < f.ratio.weight := fun g hg =>
    ((le_iff_of_pos (hrow g hg) (h.weight_pos hrow)).mp (h.greatest g hg)).trans_lt hless
  refine ⟨by simp, List.forall_mem_append.mpr ⟨fun g hg => ?_, fun g hg => ?_⟩, fun g hg => ?_⟩
  · exact (le_iff_of_pos (hrow g hg) hf).mpr (hbelow g hg).le
  · obtain rfl := List.mem_singleton.mp hg
    exact (le_iff_of_pos hf hf).mpr (Nat.le_refl _)
  · rw [List.take_left] at hg
    exact (lt_iff_of_pos (hrow g hg)).mpr (hbelow g hg)

/-- An equal ratio does not. -/
theorem Leads.kept (h : Leads row col r) (hpos : Positive (row ++ [f]))
    (hless : ¬ r.lt f.ratio = true) : Leads (row ++ [f]) col r := by
  obtain ⟨hrow, hf⟩ := List.forall_mem_append.mp hpos
  have hf := hf f (List.mem_singleton_self f)
  have hr := h.weight_pos hrow
  rw [lt_iff_of_pos hr, Nat.not_lt] at hless
  refine ⟨?_, List.forall_mem_append.mpr ⟨h.greatest, fun g hg => ?_⟩, ?_⟩
  · rw [List.getElem?_append_left h.col_lt]
    exact h.here
  · obtain rfl := List.mem_singleton.mp hg
    exact (le_iff_of_pos hf hr).mpr hless
  · rw [List.take_append_of_le_length h.col_lt.le]
    exact h.leftmost

/-- **One cell more**: the search goes on with the column that leads then. -/
theorem Leads.step (h : Leads row col r) (hpos : Positive (row ++ [f])) (rest : List Fraction) :
    ∃ col' r', bestOf (some (col, r)) row.length (f :: rest) =
        bestOf (some (col', r')) (row ++ [f]).length rest ∧ Leads (row ++ [f]) col' r' := by
  have hf : zero.lt f.ratio = true := by
    rw [lt_iff_weight_lt (by decide) (by decide), weight_zero]
    exact hpos f (List.mem_append_right _ (List.mem_singleton_self f))
  rw [bestOf, List.length_append, List.length_singleton]
  simp only [hf, Bool.true_and]
  by_cases hless : r.lt f.ratio = true
  · exact ⟨row.length, f.ratio, by rw [if_pos hless], h.overtaken hpos hless⟩
  · exact ⟨col, r, by rw [if_neg hless], h.kept hpos hless⟩

/-- **All cells that are left.** -/
theorem Leads.run (h : Leads done col r) (hpos : Positive (done ++ todo)) :
    ∃ col' r', bestOf (some (col, r)) done.length todo = some (col', r') ∧
      Leads (done ++ todo) col' r' := by
  induction todo generalizing done col r with
  | nil => exact ⟨col, r, rfl, by rwa [List.append_nil]⟩
  | cons f todo ih =>
      -- The cell goes over to those that are done, and the column of the next one is their number.
      rw [List.append_cons] at hpos ⊢
      obtain ⟨hnext, -⟩ := List.forall_mem_append.mp hpos
      obtain ⟨col', r', hstep, hleads⟩ := h.step hnext todo
      rw [hstep]
      exact ih hleads hpos

/-- A row with positive ratios has a best column. -/
theorem exists_bestOf (hne : row ≠ []) (hpos : Positive row) :
    ∃ col r, bestOf none 0 row = some (col, r) ∧ Leads row col r := by
  obtain ⟨f, rest, rfl⟩ := List.exists_cons_of_ne_nil hne
  have hf : 0 < f.ratio.weight := hpos f List.mem_cons_self
  have hzero : zero.lt f.ratio = true := by
    rw [lt_iff_weight_lt (by decide) (by decide), weight_zero]
    exact hf
  rw [bestOf]
  simp only [hzero, if_true]
  exact (leads_singleton hf).run hpos

/-- When all rows have positive ratios, each of them has its match, in order. -/
theorem getElem?_bestMatches {m : Matrix} (hne : ∀ row ∈ m.cells, row ≠ [])
    (hpos : ∀ row ∈ m.cells, Positive row) : m.bestMatches.length = m.rows ∧
      ∀ (i : Nat) (row : List Fraction), m.cells[i]? = some row →
        ∃ col r, m.bestMatches[i]? = some ⟨i, col, r⟩ ∧ Leads row col r := by
  have hfound : ∀ p ∈ m.cells.zipIdx,
      ((bestOf none 0 p.1).map fun (x : Nat × Binary64) => HeadMatch.mk p.2 x.1 x.2).isSome := by
    intro p hp
    have hrow := (List.mem_zipIdx' hp).2 ▸ List.getElem_mem _
    obtain ⟨col, r, hbest, -⟩ := exists_bestOf (hne _ hrow) (hpos _ hrow)
    rw [hbest]
    rfl
  -- No row is dropped, so a match stands where its row does.
  constructor
  · exact (List.filterMap_length_eq_length.mpr hfound).trans List.length_zipIdx
  · intro i row hi
    have hrow := List.mem_of_getElem? hi
    obtain ⟨col, r, hbest, hleads⟩ := exists_bestOf (hne row hrow) (hpos row hrow)
    refine ⟨col, r, ?_, hleads⟩
    have hget := List.getElem?_filterMap_of_isSome hfound i
    rw [List.getElem?_zipIdx, hi, Nat.zero_add] at hget
    refine hget.trans ?_
    rw [Option.map_some, Option.bind_some, hbest]
    rfl

end Matrix

/-! ### The matrix of two outlines -/

theorem Grid.get?_map (g : Grid α) (f : α → β) (i j : Nat) :
    (Grid.mk g.rows g.cols (g.cells.map f)).get? i j = (g.get? i j).map f := by
  unfold Grid.get?
  split
  · exact Array.getElem?_map ..
  · rfl

theorem Outline.get?_childScores (a b : Outline) (i j : Nat) :
    (childScores a b).get? i j = (a.bodies[i]?).bind fun x => (b.bodies[j]?).map (align x) := by
  unfold childScores
  split
  next hempty =>
    rcases hempty with rfl | rfl
    · rfl
    · cases a.bodies[i]? <;> rfl
  next => exact Grid.get?_ofLists ..

namespace OutlineLikeness

open Outline

variable {a b : Outline}

/-- **The cells are the scores of the children**, when every head has a child. -/
theorem cells_ofOutlines (a b : Outline) :
    (ofOutlines a b a.bodies.length b.bodies.length).matrix.cells =
      a.bodies.map fun x => b.bodies.map fun y => (align x y).fraction := by
  refine List.ext_getElem (by simp [ofOutlines, Matrix.ofGrid]) fun i hi hi' => ?_
  refine List.ext_getElem (by simp [ofOutlines, Matrix.ofGrid]) fun j hj hj' => ?_
  rw [List.length_map] at hi'
  rw [List.getElem_map, List.length_map] at hj'
  simp only [ofOutlines, Matrix.ofGrid, List.getElem_map, List.getElem_range, Grid.get?_map,
    get?_childScores, List.getElem?_eq_getElem hi', List.getElem?_eq_getElem hj', Option.bind_some,
    Option.map_some, Option.getD_some]

theorem positive_cells (hsmall : a.length + b.length + 1 < 2 ^ 63) {x : Outline} (hx : x ∈ a.bodies) :
    Matrix.Positive (b.bodies.map fun y => (align x y).fraction) := by
  intro f hf
  obtain ⟨y, hy, rfl⟩ := List.mem_map.mp hf
  have hless := length_add_lt hx hy
  exact (balanced_align (by omega)).weight_pos (by omega)

/-- A ratio tells outlines of the same shape from all others, and is the greatest there is for them. -/
theorem ratio_align_eq_one_iff {x y : Outline} (hx : x.WellNested) (hy : y.WellNested)
    (hsmall : x.length + y.length < 2 ^ 53) :
    ((align x y).ratio = .one ↔ SameShape x y) ∧
      (one.le (align x y).ratio = true → (align x y).ratio = .one) := by
  have hbalanced := balanced_align (a := x) (b := y) (by omega)
  have hmatched := hbalanced.matched_pos
  have hle := hbalanced.matched_le_total
  have htotal := hbalanced.total_le.trans hsmall
  have hone := Score.ratio_eq_one_iff hmatched hle htotal
  refine ⟨hone.trans (full_align_iff_sameShape hx hy hsmall), fun hgreatest => hone.mpr ?_⟩
  have hpos := Score.weight_pos hmatched hle (by omega)
  rw [Matrix.le_iff_of_pos (by decide) hpos] at hgreatest
  have hweight := le_antisymm (Score.weight_le_one hmatched hle (by omega)) hgreatest
  exact (Score.weight_eq_one_iff hmatched hle htotal).mp hweight

/-- A leading ratio is one just where a child meets one of its own shape. -/
theorem leads_one_iff {x : Outline} {ys : List Outline} {col : Nat} {r : Binary64}
    (hx : x.WellNested) (hys : ∀ y ∈ ys, y.WellNested) (hsmall : ∀ y ∈ ys, x.length + y.length < 2 ^ 53)
    (h : Matrix.Leads (ys.map fun y => (align x y).fraction) col r) :
    (r = .one ↔ ∃ y ∈ ys, SameShape x y) ∧
      (r = .one → IsLeast {k | ∃ y, ys[k]? = some y ∧ SameShape x y} col) := by
  have hshape : ∀ y ∈ ys, ((align x y).ratio = .one ↔ SameShape x y) ∧
      (one.le (align x y).ratio = true → (align x y).ratio = .one) := fun y hy =>
    ratio_align_eq_one_iff hx (hys y hy) (hsmall y hy)
  obtain ⟨y, hy, hratio⟩ : ∃ y, ys[col]? = some y ∧ (align x y).ratio = r := by
    obtain ⟨f, hf, hratio⟩ := Option.map_eq_some_iff.mp h.here
    rw [List.getElem?_map] at hf
    obtain ⟨y, hy, rfl⟩ := Option.map_eq_some_iff.mp hf
    exact ⟨y, hy, hratio⟩
  have hmem := List.mem_of_getElem? hy
  constructor
  · constructor
    · rintro rfl
      exact ⟨y, hmem, (hshape y hmem).1.mp hratio⟩
    · rintro ⟨z, hz, hsame⟩
      -- The child of the same shape has the ratio one, which is the greatest there is.
      have hgreatest : one.le r = true := by
        rw [← (hshape z hz).1.mpr hsame]
        exact h.greatest _ (List.mem_map_of_mem hz)
      rw [← hratio] at hgreatest ⊢
      exact (hshape y hmem).2 hgreatest
  · rintro rfl
    refine ⟨⟨y, hy, (hshape y hmem).1.mp hratio⟩, ?_⟩
    rintro k ⟨z, hz, hsame⟩
    -- Further to the left, such a child would have a ratio of one below the leading one.
    by_contra hbefore
    have htake : (align x z).fraction ∈ (ys.map fun y => (align x y).fraction).take col := by
      refine List.mem_of_getElem? (i := k) ?_
      rw [List.getElem?_take_of_lt (Nat.not_le.mp hbefore), List.getElem?_map, hz]
      rfl
    have hless : (align x z).ratio.lt one = true := h.leftmost _ htake
    rw [(hshape z (List.mem_of_getElem? hz)).1.mpr hsame] at hless
    exact absurd hless (by decide)

/-- **Attribution.** The matrix of two outlines has the scores of their children. Each child of the first has
exactly one match, in order: the leftmost of the columns with the greatest ratio of its row. The ratio is one
just when the second outline has a child of the same shape, and then the match is the leftmost of those. More
nodes than the first bound allows fit no memory; up to 53 bits of nodes, a ratio tells a full score from all
others. -/
theorem bestMatches_ofOutlines (ha : a.WellNested) (hb : b.WellNested) (hne : b ≠ [])
    (hsmall : a.length + b.length + 1 < 2 ^ 63) :
    let m := (ofOutlines a b a.bodies.length b.bodies.length).matrix
    (m.cells = a.bodies.map fun x => b.bodies.map fun y => (align x y).fraction) ∧
      m.bestMatches.length = a.bodies.length ∧
      ∀ (i : Nat) (x : Outline), a.bodies[i]? = some x → ∃ col r,
        m.bestMatches[i]? = some ⟨i, col, r⟩ ∧
        Matrix.Leads (b.bodies.map fun y => (align x y).fraction) col r ∧
        ((∀ y ∈ b.bodies, x.length + y.length < 2 ^ 53) →
          (r = .one ↔ ∃ y ∈ b.bodies, SameShape x y) ∧
            (r = .one → IsLeast {k | ∃ y, b.bodies[k]? = some y ∧ SameShape x y} col)) := by
  intro m
  have hcells : m.cells = a.bodies.map fun x => b.bodies.map fun y => (align x y).fraction :=
    cells_ofOutlines a b
  have hrow : ∀ row ∈ m.cells, row ≠ [] ∧ Matrix.Positive row := by
    rw [hcells]
    rintro row hrow
    obtain ⟨x, hx, rfl⟩ := List.mem_map.mp hrow
    refine ⟨fun hnil => hne ?_, positive_cells hsmall hx⟩
    exact bodies_eq_nil.mp (List.map_eq_nil_iff.mp hnil)
  obtain ⟨hlength, hmatches⟩ :=
    Matrix.getElem?_bestMatches (fun row h => (hrow row h).1) fun row h => (hrow row h).2
  refine ⟨hcells, ?_, fun i x hx => ?_⟩
  · rw [hlength, Matrix.rows, hcells, List.length_map]
  · have hi : m.cells[i]? = some (b.bodies.map fun y => (align x y).fraction) := by
      rw [hcells, List.getElem?_map, hx]
      rfl
    obtain ⟨col, r, hmatch, hleads⟩ := hmatches i _ hi
    refine ⟨col, r, hmatch, hleads, fun hfew => ?_⟩
    exact leads_one_iff (ha.of_mem_bodies (List.mem_of_getElem? hx))
      (fun y hy => hb.of_mem_bodies hy) hfew hleads

/-- The first of three children is unlike, and of the two copies of the other one, the former has its nodes in
another order. -/
theorem bestMatches_ofOutlines_copies :
    let a : Outline := [⟨0, 1⟩, ⟨1, 2⟩, ⟨2, 3⟩, ⟨1, 3⟩, ⟨0, 1⟩, ⟨1, 2⟩]
    let b : Outline := [⟨3, 0⟩, ⟨4, 0⟩,
      ⟨3, 0⟩, ⟨4, 0⟩, ⟨4, 0⟩, ⟨5, 0⟩,
      ⟨3, 0⟩, ⟨4, 0⟩, ⟨5, 0⟩, ⟨4, 0⟩]
    (ofOutlines a b 2 3).matrix.bestMatches = [⟨0, 1, .one⟩, ⟨1, 0, .one⟩] ∧
      IsLeast {k | ∃ y, b.bodies[k]? = some y ∧ SameShape [⟨1, 2⟩, ⟨2, 3⟩, ⟨1, 3⟩] y} 1 := by
  intro a b
  have hfirst : a.bodies[0]? = some [⟨1, 2⟩, ⟨2, 3⟩, ⟨1, 3⟩] := by decide +kernel
  have hsizes : a.bodies.length = 2 ∧ b.bodies.length = 3 := by decide +kernel
  have hmatches : (ofOutlines a b 2 3).matrix.bestMatches = [⟨0, 1, .one⟩, ⟨1, 0, .one⟩] := by
    decide +kernel
  obtain ⟨-, -, hall⟩ := bestMatches_ofOutlines (a := a) (b := b) (by decide) (by decide) (by decide)
    (by decide)
  obtain ⟨col, r, hmatch, -, hshape⟩ := hall 0 _ hfirst
  rw [hsizes.1, hsizes.2, hmatches] at hmatch
  obtain ⟨-, rfl, rfl⟩ := HeadMatch.mk.inj (Option.some.inj hmatch)
  exact ⟨hmatches, (hshape (by decide +kernel)).2 rfl⟩

end OutlineLikeness

end Likeness
