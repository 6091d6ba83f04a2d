import Likeness.Proofs.Outline.Extraction
import Likeness.Proofs.Outline.Nesting
import Likeness.Proofs.Outline.Ties

/-!
# Likeness.Proofs.Outline.FreeTies

The alignment with the ties between rows left open.

The selection decides ties between rows by position. Here a round may take any row that holds a
cell of greatest ratio, at the first such cell of the row (`Grid.Takes`), and an outline *attains*
the scores that the greedy alignment comes to in this way (`Outline.Attains`). What it attains does
not depend on the order of siblings (`Outline.Attains.reordered_iff`), and the score of the
alignment is among it (`Outline.attains_align`). So an order of siblings can only choose between
these scores.
-/

namespace Likeness

namespace Grid

/-! ### Rounds that may start from any row -/

/-- Rounds over free rows and columns that take cells which no other one exceeds. Along a row they
go from left to right, but any row may come first. -/
inductive Takes (score : Cell → Score) : List Nat → List Nat → List Cell → Prop
  | done {rows cols : List Nat} (closed : rows = [] ∨ cols = []) : Takes score rows cols []
  | round {rows cols : List Nat} {p : Cell} {taken : List Cell} (free : p ∈ rows ×ˢ cols)
      (greatest : ∀ q ∈ rows ×ˢ cols, ¬ (score p).ratio.lt (score q).ratio)
      (first : ∀ q ∈ rows ×ˢ cols, q.1 = p.1 → q.2 < p.2 → (score q).ratio.lt (score p).ratio)
      (rest : Takes score (rows.erase p.1) (cols.erase p.2) taken) :
      Takes score rows cols (p :: taken)

/-- The rounds of the selection are such rounds. -/
theorem Open.takes_picks {score : Cell → Score} {g : Grid Score} {rows cols : List Nat}
    {rounds : Nat} (h : Open score g rows cols) (hrounds : rounds = min rows.length cols.length) :
    Takes score rows cols (picks rounds g) := by
  induction rounds generalizing g rows cols with
  | zero =>
      refine .done ?_
      rw [← List.length_eq_zero_iff, ← List.length_eq_zero_iff]
      omega
  | succ rounds ih =>
      obtain ⟨hbest, -⟩ := h.firstGreatest_candidates
        (List.ne_nil_of_length_pos (by omega)) (List.ne_nil_of_length_pos (by omega))
      have hfirst : ∀ q, q ≠ g.best →
          g.weight q < g.weight g.best ∨ g.weight q = g.weight g.best ∧ Before g.best q := by
        rcases g.best_cases with ⟨-, hzero⟩ | ⟨-, hfirst⟩
        · have hpos := h.positive _ hbest
          rw [← h.weight_of_mem hbest, hzero] at hpos
          exact absurd hpos (Nat.lt_irrefl 0)
        · exact hfirst
      have hlt {q r : Cell} (hq : q ∈ rows ×ˢ cols) (hr : r ∈ rows ×ˢ cols) :
          (score q).ratio.lt (score r).ratio = true ↔ g.weight q < g.weight r := by
        obtain ⟨hnan, hrank⟩ := Binary64.of_weight_pos (h.positive q hq)
        rw [h.weight_of_mem hq, h.weight_of_mem hr]
        exact Binary64.lt_iff_weight_lt hnan hrank
      obtain ⟨hrow, hcol⟩ := List.mem_product.mp hbest
      have hrows : (rows.erase g.best.1).length = rows.length - 1 := List.length_erase_of_mem hrow
      have hcols : (cols.erase g.best.2).length = cols.length - 1 := List.length_erase_of_mem hcol
      refine .round hbest (fun q hq => ?_) (fun q hq hqrow hqcol => ?_)
        (ih (h.clear g.best) (by omega))
      · rw [hlt hbest hq]
        by_cases hq : q = g.best
        · rw [hq]
          exact Nat.lt_irrefl _
        · rcases hfirst q hq with h | ⟨h, -⟩ <;> omega
      · rw [hlt hq hbest]
        refine (hfirst q fun heq => ?_).resolve_right fun ⟨_, hbefore⟩ => ?_
        · rw [heq] at hqcol
          exact Nat.lt_irrefl _ hqcol
        · unfold Before at hbefore
          omega

variable {score score' : Cell → Score} {rows rows' cols : List Nat} {taken : List Cell}

/-- The order in which the rows are kept plays no part. -/
theorem Takes.perm (h : Takes score rows cols taken) (hrows : rows.Perm rows') :
    Takes score rows' cols taken := by
  induction h generalizing rows' with
  | done closed =>
      refine .done (closed.imp_left ?_)
      rintro rfl
      exact hrows.nil_eq.symm
  | @round rows cols p taken free greatest first rest ih =>
      have hcells (q : Cell) : q ∈ rows ×ˢ cols ↔ q ∈ rows' ×ˢ cols :=
        (hrows.product_right cols).mem_iff
      exact .round ((hcells _).mp free) (fun q hq => greatest q ((hcells q).mpr hq))
        (fun q hq => first q ((hcells q).mpr hq)) (ih (hrows.erase _))

/-- Exchanging two rows of a table exchanges those of the cells taken from it. -/
theorem Takes.exchange {m : Nat} (h : Takes score rows cols taken)
    (hscore : ∀ p, score' (exchangeRow m p) = score p) :
    Takes score' (rows.map (Grid.exchange m)) cols (taken.map (exchangeRow m)) := by
  induction h with
  | done closed =>
      refine .done (closed.imp_left ?_)
      rintro rfl
      rfl
  | @round rows cols p taken free greatest first rest ih =>
      -- The free cells of the exchanged table are the free cells, exchanged.
      have hback {q : Cell} (hq : q ∈ rows.map (Grid.exchange m) ×ˢ cols) :
          ∃ r ∈ rows ×ˢ cols, exchangeRow m r = q := by
        obtain ⟨hrow, hcol⟩ := List.mem_product.mp hq
        obtain ⟨i, hi, hrow⟩ := List.mem_map.mp hrow
        exact ⟨(i, q.2), List.mem_product.mpr ⟨hi, hcol⟩, Prod.ext hrow rfl⟩
      obtain ⟨hrow, hcol⟩ := List.mem_product.mp free
      refine .round (List.mem_product.mpr ⟨List.mem_map_of_mem hrow, hcol⟩) (fun q hq => ?_)
        (fun q hq hqrow hqcol => ?_) ?_
      · obtain ⟨r, hr, rfl⟩ := hback hq
        rw [hscore, hscore]
        exact greatest r hr
      · obtain ⟨r, hr, rfl⟩ := hback hq
        rw [hscore, hscore]
        exact first r hr (exchange_inj.mp hqrow) hqcol
      · have herase := List.map_erase (exchange_injective m) (a := p.1) rows
        exact herase ▸ ih

theorem perm_range_exchange {m n : Nat} (h : m + 1 < n) :
    ((List.range n).map (Grid.exchange m)).Perm (List.range n) := by
  have hnodup : ((List.range n).map (Grid.exchange m)).Nodup :=
    List.nodup_range.map (exchange_injective m)
  refine (List.perm_ext_iff_of_nodup hnodup List.nodup_range).mpr fun i => ?_
  rw [List.mem_map, List.mem_range]
  constructor
  · rintro ⟨k, hk, rfl⟩
    exact (exchange_lt h).mpr (List.mem_range.mp hk)
  · intro hi
    exact ⟨Grid.exchange m i, List.mem_range.mpr ((exchange_lt h).mpr hi), exchange_exchange m i⟩

/-- Each row is taken at most once. -/
theorem Takes.subperm (h : Takes score rows cols taken) : (taken.map Prod.fst).Subperm rows := by
  induction h with
  | done => exact List.nil_subperm
  | round free _ _ _ ih =>
      obtain ⟨hrow, -⟩ := List.mem_product.mp free
      exact ((List.subperm_cons _).mpr ih).trans (List.perm_cons_erase hrow).symm.subperm

end Grid

namespace Outline

open Grid

/-! ### The scores of one level -/

/-- The score of two outlines whose cells `taken` have the scores `score`. All children that were
not taken are left over, which are none on a side that is used up. -/
def tally (a b : List Outline) (score : Cell → Score) (taken : List Cell) : Score :=
  ⟨1 + ((taken.map score).sum).matched,
    1 + ((taken.map score).sum).total + leftOver a (taken.map Prod.fst) +
      leftOver b (taken.map Prod.snd)⟩

/-- What is left over of the children is all of them without those taken. -/
theorem leftOver_add_takes {bodies : List Outline} {score : Cell → Score} {cols : List Nat}
    {taken : List Cell} (h : Takes score (List.range bodies.length) cols taken) :
    leftOver bodies (taken.map Prod.fst) + ((taken.map Prod.fst).map (childSize bodies)).sum =
      (bodies.map fun x => x.length + 1).sum := by
  refine leftOver_add_taken bodies ?_ fun i hi => List.mem_range.mp (h.subperm.subset hi)
  obtain ⟨rows, hperm, hsublist⟩ := h.subperm
  exact hperm.nodup_iff.mp (List.nodup_range.sublist hsublist)

/-- Two levels have the same score when the cells taken have the same scores and columns, and rows
of the same size. -/
theorem tally_congr {a a' b : List Outline} {score score' : Cell → Score} {cols cols' : List Nat}
    {taken taken' : List Cell} (takes : Takes score (List.range a.length) cols taken)
    (takes' : Takes score' (List.range a'.length) cols' taken')
    (hscores : taken'.map score' = taken.map score)
    (hcols : taken'.map Prod.snd = taken.map Prod.snd)
    (hsizes : (taken'.map Prod.fst).map (childSize a') = (taken.map Prod.fst).map (childSize a))
    (htotal : (a'.map fun x => x.length + 1).sum = (a.map fun x => x.length + 1).sum) :
    tally a' b score' taken' = tally a b score taken := by
  have hall := leftOver_add_takes takes
  have hall' := leftOver_add_takes takes'
  rw [hsizes, htotal] at hall'
  have hleft : leftOver a' (taken'.map Prod.fst) = leftOver a (taken.map Prod.fst) := by omega
  rw [tally, hscores, hcols, hleft, tally]

theorem leftOver_nil (o : Outline) : leftOver o.bodies [] = o.length := by
  rw [length_eq_sum, ← leftOver_add_taken o.bodies List.nodup_nil (by simp)]
  rfl

/-! ### All levels -/

/-- The scores that the greedy alignment of two outlines can come to when ties between rows are
left open at all levels. -/
inductive Attains : Outline → Outline → Score → Prop
  | level {a b : Outline} {score : Cell → Score} {taken : List Cell}
      (below : ∀ i j x y, a.bodies[i]? = some x → b.bodies[j]? = some y →
        Attains x y (score (i, j)))
      (takes : Takes score (List.range a.bodies.length) (List.range b.bodies.length) taken) :
      Attains a b (tally a.bodies b.bodies score taken)

/-- The score of the alignment is one of them. -/
theorem attains_align {a b : Outline} (hsmall : a.length + b.length + 1 < 2 ^ 63) :
    Attains a b (align a b) := by
  induction a, b using bodies_induction with
  | below a b ih =>
      have hbelow : ∀ i j x y, a.bodies[i]? = some x → b.bodies[j]? = some y →
          Attains x y ((childScores a b).cell (i, j)) := by
        intro i j x y hx hy
        have hx' := List.mem_of_getElem? hx
        have hy' := List.mem_of_getElem? hy
        have hless := length_add_lt hx' hy'
        have hcell : (childScores a b).cell (i, j) = align x y := by simp [cell_childScores, hx, hy]
        rw [hcell]
        exact ih x hx' y hy' (by omega)
      rw [align_eq]
      split
      next hne =>
        have hclosed : List.range a.bodies.length = [] ∨ List.range b.bodies.length = [] := by
          simpa [bodies_eq_nil] using hne
        have hscore := Attains.level hbelow (.done hclosed)
        have htally : tally a.bodies b.bodies (childScores a b).cell [] =
            ⟨1, a.length + b.length + 1⟩ := by
          simp [tally, leftOver_nil]
          omega
        rwa [htally] at hscore
      next hne =>
        obtain ⟨hrows, hcols⟩ := size_childScores hne
        have hpos := positive_childScores hsmall
        have hrounds : (childScores a b).rounds =
            min (List.range (childScores a b).rows).length
              (List.range (childScores a b).cols).length := by
          simp [rounds]
        have htakes := hpos.isOpen.takes_picks hrounds
        rw [hrows, hcols] at htakes
        rw [combine_of_positive hrows hcols hpos]
        exact .level hbelow htakes

/-! ### Siblings in another order -/

/-- Two neighbouring children change places. -/
theorem Attains.swap {a a' b : Outline} {before after : List Outline} {x y : Outline} {s : Score}
    (ha : a.bodies = before ++ x :: y :: after) (ha' : a'.bodies = before ++ y :: x :: after)
    (h : Attains a b s) : Attains a' b s := by
  cases h with
  | @level _ _ score taken below takes =>
      have hat (i : Nat) : a'.bodies[i]? = a.bodies[exchange before.length i]? := by
        rw [ha, ha', getElem?_exchange]
      have hlength : a'.bodies.length = a.bodies.length := by
        rw [ha, ha']
        simp
      have hinside : before.length + 1 < a.bodies.length := by
        rw [ha]
        simp
      have hback (p : Cell) : (score ∘ exchangeRow before.length) (exchangeRow before.length p) =
          score p := by
        rw [Function.comp_apply, exchangeRow_exchangeRow]
      have htakes := (takes.exchange hback).perm (perm_range_exchange hinside)
      rw [← hlength] at htakes
      have hscores : (taken.map (exchangeRow before.length)).map
          (score ∘ exchangeRow before.length) = taken.map score := by
        rw [List.map_map]
        exact List.map_congr_left fun p _ => hback p
      have hcols : (taken.map (exchangeRow before.length)).map Prod.snd = taken.map Prod.snd := by
        rw [List.map_map]
        rfl
      have hsizes : ((taken.map (exchangeRow before.length)).map Prod.fst).map
          (childSize a'.bodies) = (taken.map Prod.fst).map (childSize a.bodies) := by
        simp only [List.map_map]
        refine List.map_congr_left fun p _ => ?_
        simp [childSize, hat, exchangeRow]
      have htotal : (a'.bodies.map fun x => x.length + 1).sum =
          (a.bodies.map fun x => x.length + 1).sum := by
        simp only [ha, ha', List.map_append, List.map_cons, List.sum_append, List.sum_cons]
        omega
      rw [← tally_congr takes htakes hscores hcols hsizes htotal]
      refine .level (fun i j z y hz hy => below _ j z y ?_ hy) htakes
      rw [← hat]
      exact hz

theorem getElem?_append_cons_of_ne {before after : List α} {x y : α} {i : Nat}
    (h : i ≠ before.length) : (before ++ x :: after)[i]? = (before ++ y :: after)[i]? := by
  rcases Nat.lt_or_gt_of_ne h with h | h
  · rw [List.getElem?_append_left h, List.getElem?_append_left h]
  · obtain ⟨k, rfl⟩ := Nat.exists_eq_add_of_lt h
    rw [Nat.add_assoc, List.getElem?_append_right (by omega),
      List.getElem?_append_right (by omega), Nat.add_sub_cancel_left]
    rfl

/-- One child is replaced by another of the same length that attains the same scores. -/
theorem Attains.replace {a a' b : Outline} {before after : List Outline} {x x' : Outline}
    {s : Score} (ha : a.bodies = before ++ x :: after) (ha' : a'.bodies = before ++ x' :: after)
    (hlength : x'.length = x.length) (hx' : ∀ y ∈ b.bodies, ∀ s, Attains x y s → Attains x' y s)
    (h : Attains a b s) : Attains a' b s := by
  cases h with
  | @level _ _ score taken below takes =>
      have hlengths : a'.bodies.map List.length = a.bodies.map List.length := by
        simp [ha, ha', hlength]
      have hcount : a'.bodies.length = a.bodies.length := by
        simp [ha, ha']
      have hsizes : (taken.map Prod.fst).map (childSize a'.bodies) =
          (taken.map Prod.fst).map (childSize a.bodies) := by
        rw [childSize_congr hlengths]
      have htotal : (a'.bodies.map fun x => x.length + 1).sum =
          (a.bodies.map fun x => x.length + 1).sum := by
        simp [ha, ha', hlength]
      rw [← tally_congr takes (hcount ▸ takes) rfl rfl hsizes htotal]
      refine .level (fun i j z y hz hy => ?_) (hcount ▸ takes)
      by_cases hi : i = before.length
      · obtain rfl : x' = z := by simpa [ha', hi] using hz
        exact hx' y (List.mem_of_getElem? hy) _ (below i j x y (by simp [ha, hi]) hy)
      · refine below i j z y ?_ hy
        rwa [ha, getElem?_append_cons_of_ne hi, ← ha']

/-- Reordering siblings loses none of the scores that are attained. -/
theorem stepwise_attains : Stepwise fun a a' => ∀ b s, Attains a b s → Attains a' b s where
  refl _ _ _ h := h
  trans first second b s h := second b s (first b s h)
  swap _ ha ha' _ _ h := h.swap ha ha'
  replace _ ha ha' hlength inside _ _ h := h.replace ha ha' hlength fun y _ => inside y

/-- The order of siblings plays no part in what an outline attains. -/
theorem Attains.reordered_iff {a a' b : Outline} {s : Score} (hreordered : Reordered a a') :
    Attains a' b s ↔ Attains a b s :=
  ⟨stepwise_attains.reordered hreordered.symm b s, stepwise_attains.reordered hreordered b s⟩

end Outline

end Likeness
