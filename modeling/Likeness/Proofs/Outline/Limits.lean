import Likeness.Proofs.Number.Rounding
import Likeness.Proofs.Outline.Conservation
import Likeness.Proofs.Partial

/-!
# Likeness.Proofs.Outline.Limits

How large the numbers of an alignment get.

`Outline.alignWithin` is the alignment in an arithmetic that stops at a limit: a sum that reaches it
is refused, and the alignment with it. This concerns all sums on the way, the running totals of a
selection as well as those of the children left over. Sums only grow, so it is enough to bound the
results, and these are bounded by conservation. No sum at any level exceeds the length of both
outlines together and one more (`Outline.alignWithin_eq`).
-/

namespace Likeness

/-! ### Bounded sums -/

/-- A sum, refused when it reaches the limit. -/
def addWithin (limit m n : Nat) : Option Nat := if m + n < limit then some (m + n) else none

theorem addWithin_of_lt {limit m n : Nat} (h : m + n < limit) :
    addWithin limit m n = some (m + n) := if_pos h

namespace Score

/-- Adds up both parts of two scores within a limit. -/
def addWithin (limit : Nat) (s t : Score) : Option Score := do
  let matched ← Likeness.addWithin limit s.matched t.matched
  let total ← Likeness.addWithin limit s.total t.total
  return ⟨matched, total⟩

/-- Both parts of a score lie below a limit. -/
def Below (s : Score) (limit : Nat) : Prop := s.matched < limit ∧ s.total < limit

theorem Below.of_add {s t : Score} {limit : Nat} (h : (s + t).Below limit) : s.Below limit :=
  ⟨Nat.lt_of_le_of_lt (Nat.le_add_right ..) h.1, Nat.lt_of_le_of_lt (Nat.le_add_right ..) h.2⟩

theorem addWithin_of_below {s t : Score} {limit : Nat} (h : (s + t).Below limit) :
    s.addWithin limit t = some (s + t) := by
  simp only [addWithin, addWithin_of_lt h.1, addWithin_of_lt h.2]
  rfl

end Score

namespace Grid

/-- The rounds of a selection within a limit. -/
def selectWithin (limit : Nat) : Nat → Grid Score → Selection → Option Selection
  | 0, _, s => some s
  | rounds + 1, g, s => do
    let (i, j) := g.best
    let score ← s.score.addWithin limit ((g.get? i j).getD 0)
    selectWithin limit rounds (g.clear i j) { score, rows := i :: s.rows, cols := j :: s.cols }

/-- The totals of a selection only grow, so a limit that holds at the end was never reached. -/
theorem selectWithin_eq {limit rounds : Nat} {g : Grid Score} {s : Selection}
    (h : (select rounds g s).score.Below limit) :
    selectWithin limit rounds g s = some (select rounds g s) := by
  induction rounds generalizing g s with
  | zero => rfl
  | succ rounds ih =>
      have hround : (s.score + g.cell g.best).Below limit := by
        rw [select_eq, harvest, ← add_assoc] at h
        exact h.of_add
      change (do
        let score ← s.score.addWithin limit (g.cell g.best)
        selectWithin limit rounds (g.clear g.best.1 g.best.2) _) = _
      rw [Score.addWithin_of_below hround]
      exact ih h

end Grid

namespace Outline

/-- The children left over, added up within a limit. -/
def leftOverWithin (limit : Nat) (bodies : List Outline) (taken : List Nat) : Option Nat :=
  (bodies.zipIdx.filter fun (_, i) => !taken.contains i).foldlM
    (fun n (b, _) => addWithin limit n (b.length + 1)) 0

theorem le_foldl_add (size : α → Nat) (l : List α) (n : Nat) :
    n ≤ l.foldl (fun n x => n + size x) n := by
  induction l generalizing n with
  | nil => exact Nat.le_refl n
  | cons x l ih => exact Nat.le_trans (Nat.le_add_right n (size x)) (ih _)

theorem foldlM_addWithin {limit : Nat} (size : α → Nat) {l : List α} {n : Nat}
    (h : l.foldl (fun n x => n + size x) n < limit) :
    l.foldlM (fun n x => addWithin limit n (size x)) n =
      some (l.foldl (fun n x => n + size x) n) := by
  induction l generalizing n with
  | nil => rfl
  | cons x l ih =>
      rw [List.foldl_cons] at h ⊢
      have hsum : n + size x < limit := Nat.lt_of_le_of_lt (le_foldl_add size l _) h
      rw [List.foldlM_cons, addWithin_of_lt hsum]
      exact ih h

theorem leftOverWithin_eq {limit : Nat} {bodies : List Outline} {taken : List Nat}
    (h : leftOver bodies taken < limit) :
    leftOverWithin limit bodies taken = some (leftOver bodies taken) :=
  foldlM_addWithin (fun p : Outline × Nat => p.1.length + 1) h

/-- The score of one level within a limit. -/
def combineWithin (limit : Nat) (a b : List Outline) (table : Grid Score) : Option Score := do
  let s ← table.selectWithin limit (min table.rows table.cols) ⟨⟨1, 1⟩, [], []⟩
  let rest ←
    if b.length < a.length then leftOverWithin limit a s.rows
    else if a.length < b.length then leftOverWithin limit b s.cols
    else some 0
  let total ← addWithin limit s.score.total rest
  return ⟨s.score.matched, total⟩

theorem combineWithin_eq {limit : Nat} {a b : List Outline} {table : Grid Score}
    (h : (combine a b table).Below limit) :
    combineWithin limit a b table = some (combine a b table) := by
  obtain ⟨hmatched, htotal⟩ := h
  simp only [combine] at hmatched htotal
  have hselect : table.selectWithin limit (min table.rows table.cols) ⟨⟨1, 1⟩, [], []⟩ =
      some table.greedy :=
    Grid.selectWithin_eq ⟨hmatched, Nat.lt_of_le_of_lt (Nat.le_add_right ..) htotal⟩
  rw [combineWithin, hselect, combine]
  simp only [Option.bind_eq_bind, Option.bind_some]
  split_ifs at htotal ⊢
  · rw [leftOverWithin_eq (Nat.lt_of_le_of_lt (Nat.le_add_left ..) htotal), Option.bind_some,
      addWithin_of_lt htotal]
    rfl
  · rw [leftOverWithin_eq (Nat.lt_of_le_of_lt (Nat.le_add_left ..) htotal), Option.bind_some,
      addWithin_of_lt htotal]
    rfl
  · rw [addWithin_of_lt htotal]
    rfl

/-- The alignment within a limit. -/
def alignWithin (limit : Nat) (a b : Outline) : Option Score :=
  if a = [] ∨ b = [] then do
    let total ← addWithin limit (a.length + b.length) 1
    return ⟨1, total⟩
  else do
    let rows ← a.bodies.attach.mapM fun x => b.bodies.mapM fun y => alignWithin limit x.1 y
    combineWithin limit a.bodies b.bodies
      ⟨a.bodies.length, b.bodies.length, rows.flatten.toArray⟩
termination_by a.length
decreasing_by exact length_of_mem_bodies x.2

theorem Balanced.below {s : Score} {m n limit : Nat} (h : Balanced s m n)
    (hlimit : m + n + 1 < limit) : s.Below limit :=
  have htotal := Nat.lt_of_le_of_lt h.total_le hlimit
  ⟨Nat.lt_of_le_of_lt h.matched_le_total htotal, htotal⟩

/-- **No sum exceeds the length of both outlines by more than one**, at any level. -/
theorem alignWithin_eq {limit : Nat} {a b : Outline} (hsmall : a.length + b.length + 1 < 2 ^ 63)
    (hlimit : a.length + b.length + 1 < limit) : alignWithin limit a b = some (align a b) := by
  induction a, b using bodies_induction with
  | below a b ih =>
      have hbelow := (balanced_align hsmall).below hlimit
      rw [align_eq] at hbelow ⊢
      rw [alignWithin]
      by_cases hne : a = [] ∨ b = []
      · rw [if_pos hne, if_pos hne, addWithin_of_lt hlimit]
        rfl
      · rw [if_neg hne] at hbelow
        rw [if_neg hne, if_neg hne]
        have hcells : a.bodies.attach.mapM (fun x => b.bodies.mapM fun y =>
            alignWithin limit x.1 y) =
            some (a.bodies.attach.map fun x => b.bodies.map (align x.1)) := by
          refine List.mapM_eq_some_map fun x _ => List.mapM_eq_some_map fun y hy => ?_
          have hless := length_add_lt x.2 hy
          exact ih x.1 x.2 _ hy (by omega) (by omega)
        have htable : (⟨a.bodies.length, b.bodies.length,
            (a.bodies.attach.map fun x => b.bodies.map (align x.1)).flatten.toArray⟩ : Grid Score) =
            childScores a b := by
          rw [childScores, if_neg hne, Grid.ofLists, List.flatMap_def,
            List.attach_map_val (f := fun x => b.bodies.map (align x))]
        rw [hcells, Option.bind_eq_bind, Option.bind_some, htable]
        exact combineWithin_eq hbelow

/-! ### Conservation and bounds -/

/-- **Conservation of size.** The bound lies far above the number of entries that fit in memory. -/
theorem align_conserves {a b : Outline} (hsmall : a.length + b.length + 1 < 2 ^ 63) :
    (align a b).matched + (align a b).total = a.length + b.length + 2 ∧
      1 ≤ (align a b).matched ∧ (align a b).matched ≤ min a.length b.length + 1 ∧
      (align a b).matched ≤ (align a b).total ∧ 0 < (align a b).total ∧
      Binary64.zero.lt (align a b).ratio = true ∧ (align a b).ratio.le .one = true ∧
      (align a b).fraction.numerator.toInt = (align a b).matched ∧
      (align a b).fraction.denominator.toInt = (align a b).total ∧
      ∀ limit, a.length + b.length + 1 < limit → alignWithin limit a b = some (align a b) := by
  have hbalanced := balanced_align hsmall
  have hconserved := hbalanced.conserved
  have hpos := hbalanced.matched_pos
  have hleft := hbalanced.matched_le_left
  have hright := hbalanced.matched_le_right
  have hle := hbalanced.matched_le_total
  have hfits := Nat.lt_of_le_of_lt hbalanced.total_le hsmall
  refine ⟨hconserved, hpos, by omega, hle, by omega, ?_, ?_,
    Int64.toInt_ofNat_of_lt (by omega), Int64.toInt_ofNat_of_lt hfits,
    fun limit => alignWithin_eq hsmall⟩
  · rw [Binary64.lt_iff_weight_lt (by decide) (by decide), Binary64.weight_zero]
    exact hbalanced.weight_pos hsmall
  · exact Score.ratio_le_one hpos hle hfits

/-- An outline that is not well nested, with a child that is left over. -/
theorem align_conserves_malformed :
    align [⟨2, 0⟩, ⟨1, 0⟩, ⟨2, 0⟩] [⟨1, 0⟩, ⟨2, 0⟩] = ⟨3, 4⟩ ∧
      alignWithin 7 [⟨2, 0⟩, ⟨1, 0⟩, ⟨2, 0⟩] [⟨1, 0⟩, ⟨2, 0⟩] = some ⟨3, 4⟩ := by
  obtain ⟨-, -, -, -, -, -, -, -, -, hwithin⟩ :=
    align_conserves (a := [⟨2, 0⟩, ⟨1, 0⟩, ⟨2, 0⟩]) (b := [⟨1, 0⟩, ⟨2, 0⟩]) (by decide)
  have hscore : align [⟨2, 0⟩, ⟨1, 0⟩, ⟨2, 0⟩] [⟨1, 0⟩, ⟨2, 0⟩] = ⟨3, 4⟩ := by decide +kernel
  rw [hscore] at hwithin
  exact ⟨hscore, hwithin 7 (by decide)⟩

end Outline

end Likeness
