import Likeness.Proofs.Outline.FreeTies
import Likeness.Proofs.Outline.UnsettledTies

/-!
# Likeness.Proofs.Outline.SiblingOrder

How the alignment of two outlines depends on the order of siblings.

The selection at each level decides ties by position, so the order of siblings can matter, and in
general it does (`Outline.exists_reordered_align_ne`). It matters through ties only: whatever the
order, the score is one that the outlines attain with the ties between rows left open
(`Outline.Attains`). And it does not matter where all ties are settled, at every level of the two
outlines (`Outline.Settled`): then siblings may be moved about in any way, anywhere in the tree, and
the score stays (`Outline.align_reordered`). For the children that are taken nothing less would do.
Where ties are not settled, some order of siblings makes the alignment take others
(`Outline.settled_iff`), which need not change the score.
-/

namespace Likeness

namespace Outline

open Grid

/-! ### Settled outlines -/

/-- The ties between the children of two outlines are settled, and so are those between any two of
their bodies. -/
inductive Settled : Outline → Outline → Prop
  | intro {a b : Outline} (inside : ∀ x ∈ a.bodies, ∀ y ∈ b.bodies, Settled x y)
      (ties : TiesSettled (childSize a.bodies) (childScores a b)) : Settled a b

theorem Settled.inside {a b x y : Outline} (h : Settled a b) (hx : x ∈ a.bodies)
    (hy : y ∈ b.bodies) : Settled x y := by
  obtain ⟨inside, -⟩ := h
  exact inside x hx y hy

theorem Settled.ties {a b : Outline} (h : Settled a b) :
    TiesSettled (childSize a.bodies) (childScores a b) := by
  obtain ⟨-, ties⟩ := h
  exact ties

@[reducible] instance decidableSettled (a : Outline) : ∀ b, Decidable (Settled a b) := fun b =>
  let _ (x : { x // x ∈ a.bodies }) := decidableSettled x.1
  let _ : Decidable (∀ x ∈ a.bodies.attach, ∀ y ∈ b.bodies, Settled x.1 y) := List.decidableBAll ..
  decidable_of_iff
    ((∀ x ∈ a.bodies.attach, ∀ y ∈ b.bodies, Settled x.1 y) ∧
      TiesSettled (childSize a.bodies) (childScores a b))
    ⟨fun h => ⟨fun x hx => h.1 ⟨x, hx⟩ (List.mem_attach _ _), h.2⟩,
      fun h => ⟨fun x _ _ hy => h.inside x.2 hy, h.ties⟩⟩
termination_by a.length
decreasing_by exact length_of_mem_bodies x.2

/-- There are no ties with an empty outline. -/
theorem settled_nil (a : Outline) : Settled a [] := by
  refine ⟨fun _ _ y hy => absurd hy List.not_mem_nil, fun p hp => ?_⟩
  rw [childScores, if_pos (.inr rfl)] at hp
  exact absurd hp List.not_mem_nil

/-! ### Choices -/

/-- What the alignment of two outlines takes at the top. -/
def choices (a b : Outline) : List ((List Score × Nat) × Nat) :=
  (childScores a b).choices (childSize a.bodies)

theorem choices_nil (a : Outline) : choices a [] = [] := by
  rw [choices, childScores, if_pos (.inr rfl)]
  rfl

/-- Outlines of one length with the same choices have the same score. -/
theorem align_eq_of_choices {a a' b : Outline} (hlength : a'.length = a.length)
    (hsmall : a.length + b.length + 1 < 2 ^ 63) (h : (choices a' b).Perm (choices a b)) :
    align a' b = align a b := by
  have hempty : a' = [] ∨ b = [] ↔ a = [] ∨ b = [] := by
    rw [← List.length_eq_zero_iff, hlength, List.length_eq_zero_iff]
  rw [align_eq, align_eq a]
  by_cases hne : a = [] ∨ b = []
  · rw [if_pos hne, if_pos (hempty.mpr hne), hlength]
  · have hne' := mt hempty.mp hne
    obtain ⟨hrows, hcols⟩ := size_childScores hne
    obtain ⟨hrows', hcols'⟩ := size_childScores hne'
    rw [if_neg hne, if_neg hne']
    refine combine_eq_of_choices h ?_ hrows hrows' hcols hcols' (positive_childScores hsmall)
      (positive_childScores (by rwa [hlength]))
    rw [← length_eq_sum, ← length_eq_sum, hlength]

/-! ### One reordering -/

/-- Two neighbouring children change places. -/
theorem Settled.swap {a a' b : Outline} {before after : List Outline} {x y : Outline}
    (ha : a.bodies = before ++ x :: y :: after) (ha' : a'.bodies = before ++ y :: x :: after)
    (hsmall : a.length + b.length + 1 < 2 ^ 63) (h : Settled a b) :
    (choices a' b).Perm (choices a b) ∧ Settled a' b := by
  by_cases hb : b = []
  · subst hb
    rw [choices_nil, choices_nil]
    exact ⟨.refl _, settled_nil a'⟩
  have hperm : a'.bodies.Perm a.bodies := by
    rw [ha, ha']
    exact (List.Perm.swap x y after).append_left before
  have hne : ¬ (a = [] ∨ b = []) := by
    rintro (rfl | rfl)
    · simp [bodies_eq_nil.mpr] at ha
    · exact hb rfl
  have hne' : ¬ (a' = [] ∨ b = []) := by
    rintro (rfl | rfl)
    · simp [bodies_eq_nil.mpr] at ha'
    · exact hb rfl
  obtain ⟨hrows, hcols⟩ := size_childScores hne
  obtain ⟨hrows', hcols'⟩ := size_childScores hne'
  have hat (i : Nat) : a'.bodies[i]? = a.bodies[exchange before.length i]? := by
    rw [ha, ha', getElem?_exchange]
  have hexchanged : RowsExchanged before.length (childScores a b) (childScores a' b) := by
    refine ⟨?_, hcols'.trans hcols.symm, ?_, fun p => ?_⟩
    · rw [hrows', hperm.length_eq, hrows]
    · rw [hrows, ha]
      simp
    · rw [cell_childScores, cell_childScores, hat, exchangeRow]
  have hsize (i : Nat) : childSize a'.bodies i = childSize a.bodies (exchange before.length i) := by
    rw [childSize, hat, childSize]
  obtain ⟨hchoices, hties⟩ := hexchanged.settled (full_childScores a b) (full_childScores a' b)
    hsize (positive_childScores hsmall) h.ties
  exact ⟨hchoices, fun z hz y hy => h.inside (hperm.mem_iff.mp hz) hy, hties⟩

/-- One child is replaced by another of the same length that scores the same. -/
theorem Settled.replace {a a' b : Outline} {before after : List Outline} {x x' : Outline}
    (ha : a.bodies = before ++ x :: after) (ha' : a'.bodies = before ++ x' :: after)
    (hlength : x'.length = x.length)
    (hx' : ∀ y ∈ b.bodies, align x' y = align x y ∧ Settled x' y) (h : Settled a b) :
    (choices a' b).Perm (choices a b) ∧ Settled a' b := by
  have hsizes : childSize a'.bodies = childSize a.bodies :=
    childSize_congr (by simp [ha, ha', hlength])
  have htable : childScores a' b = childScores a b := by
    have hempty : a' = [] ↔ a = [] := by
      rw [← bodies_eq_nil, ← bodies_eq_nil, ha, ha']
      simp
    have hrow : b.bodies.map (align x') = b.bodies.map (align x) :=
      List.map_congr_left fun y hy => (hx' y hy).1
    simp only [childScores, hempty, ha, ha', ofLists, List.flatMap_append, List.flatMap_cons,
      hrow, List.length_append, List.length_cons]
  rw [choices, choices, htable, hsizes]
  refine ⟨.refl _, fun z hz y hy => ?_, by rw [hsizes, htable]; exact h.ties⟩
  have hz' : z ∈ a.bodies ∨ z = x' := by
    rw [ha'] at hz
    rw [ha]
    simp only [List.mem_append, List.mem_cons] at hz ⊢
    tauto
  rcases hz' with hz | rfl
  · exact h.inside hz hy
  · exact (hx' y hy).2

/-! ### All reorderings -/

/-- Where ties are settled, one outline takes the same children as another, and its ties are settled
too. -/
structure KeepsChoices (a a' : Outline) : Prop where
  length_eq : a'.length = a.length
  keeps : ∀ b : Outline, a.length + b.length + 1 < 2 ^ 63 → Settled a b →
    (choices a' b).Perm (choices a b) ∧ Settled a' b

theorem KeepsChoices.trans {a a' a'' : Outline} (first : KeepsChoices a a')
    (second : KeepsChoices a' a'') : KeepsChoices a a'' where
  length_eq := second.length_eq.trans first.length_eq
  keeps b hsmall h := by
    obtain ⟨hchoices, hsettled⟩ := first.keeps b hsmall h
    obtain ⟨hchoices', hsettled'⟩ := second.keeps b (by rwa [first.length_eq]) hsettled
    exact ⟨hchoices'.trans hchoices, hsettled'⟩

theorem stepwise_keepsChoices : Stepwise KeepsChoices where
  refl _ := ⟨rfl, fun _ _ h => ⟨.refl _, h⟩⟩
  trans := .trans
  swap hlength ha ha' := ⟨hlength, fun _ hsmall h => h.swap ha ha' hsmall⟩
  replace {a a' before after x x'} hlength ha ha' hlength' inside := by
    refine ⟨hlength, fun b hsmall h => h.replace ha ha' hlength' fun y hy => ?_⟩
    have hx : x ∈ a.bodies := ha ▸ List.mem_append_right _ List.mem_cons_self
    have hless := length_add_lt hx hy
    obtain ⟨hchoices, hsettled⟩ := inside.keeps y (by omega) (h.inside hx hy)
    exact ⟨align_eq_of_choices hlength' (by omega) hchoices, hsettled⟩

theorem Settled.reordered {a a' b : Outline} (h : Settled a b) (hreordered : Reordered a a')
    (hsmall : a.length + b.length + 1 < 2 ^ 63) : (choices a' b).Perm (choices a b) :=
  ((stepwise_keepsChoices.reordered hreordered).keeps b hsmall h).1

/-! ### Unsettled outlines -/

/-- The alignment of `a` and `b` compares `x` with `y`, at the top or further down. -/
inductive Compared : Outline → Outline → Outline → Outline → Prop
  | here (a b : Outline) : Compared a b a b
  | inside {a b x y x' y' : Outline} (left : x ∈ a.bodies) (right : y ∈ b.bodies)
      (further : Compared x y x' y') : Compared a b x' y'

theorem Settled.compared {a b x y : Outline} (h : Settled a b) (hcompared : Compared a b x y) :
    Settled x y := by
  induction hcompared with
  | here => exact h
  | inside left right _ ih => exact ih (h.inside left right)

theorem Compared.length_le {a b x y : Outline} (h : Compared a b x y) :
    x.length ≤ a.length ∧ y.length ≤ b.length := by
  induction h with
  | here => exact ⟨Nat.le_refl _, Nat.le_refl _⟩
  | inside left right _ ih =>
      have hx := length_of_mem_bodies left
      have hy := length_of_mem_bodies right
      exact ⟨by omega, by omega⟩

/-- The row of a child in the table of its siblings. -/
def rowOf (b x : Outline) : List Score × Nat := (b.bodies.map (align x), x.length + 1)

theorem rowList_childScores {a b : Outline} (hne : ¬ (a = [] ∨ b = [])) :
    (childScores a b).rowList (childSize a.bodies) = a.bodies.map (rowOf b) := by
  obtain ⟨hrows, hcols⟩ := size_childScores hne
  refine List.ext_getElem (by simp [rowList, hrows]) fun i hi hi' => ?_
  rw [List.length_map] at hi'
  simp only [rowList, List.getElem_map, List.getElem_range, row, rowOf, childSize_of_lt hi', hcols]
  refine congrArg (·, _) (List.ext_getElem (by simp) fun j hj _ => ?_)
  rw [List.length_map, List.length_range] at hj
  simp only [List.getElem_map, List.getElem_range, cell_childScores_of_lt hi' hj]

/-- If no reordering changes the choices, ties are settled. Against an unsettled tie, all children
like the one that went without are put first. -/
theorem tiesSettled_of_choices {a b : Outline} (hnested : a.WellNested)
    (hsmall : a.length + b.length + 1 < 2 ^ 63)
    (h : ∀ a', Reordered a a' → (choices a' b).Perm (choices a b)) :
    TiesSettled (childSize a.bodies) (childScores a b) := by
  intro p hp k hk _ htie
  by_cases htwins : Twins (childSize a.bodies) (childScores a b) p.1 k
  · exact .inl htwins
  · right
    have hne : ¬ (a = [] ∨ b = []) := fun hempty => by
      rw [childScores, if_pos hempty] at hk
      exact absurd hk (Nat.not_lt_zero k)
    obtain ⟨a', hreordered, hbodies⟩ := hnested.exists_reordered
      fun x => rowOf b x = (childScores a b).row (childSize a.bodies) k
    have hlength := hreordered.length_eq
    have hne' : ¬ (a' = [] ∨ b = []) := by
      rwa [← List.length_eq_zero_iff, hlength, List.length_eq_zero_iff]
    refine takenFirst_of_choices (positive_childScores hsmall)
      (positive_childScores (by rwa [hlength])) ?_ hk ?_ (h a' hreordered) hp htwins htie
    · rw [(size_childScores hne').2, (size_childScores hne).2]
    · rw [rowList_childScores hne', rowList_childScores hne, hbodies, List.map_append,
        List.filter_map, List.filter_map]
      simp only [Function.comp_def, decide_not]

/-- Ties are settled when no reordering changes any choices, and only then. -/
theorem settled_iff {a b : Outline} (hnested : a.WellNested)
    (hsmall : a.length + b.length + 1 < 2 ^ 63) :
    Settled a b ↔ ∀ x y, Compared a b x y → ∀ x', Reordered x x' →
      (choices x' y).Perm (choices x y) := by
  constructor
  · intro h x y hcompared x' hreordered
    have hlength := hcompared.length_le
    exact (h.compared hcompared).reordered hreordered (by omega)
  · intro h
    induction hn : a.length using Nat.strong_induction_on generalizing a b with
    | _ n ih =>
        subst hn
        refine ⟨fun x hx y hy => ?_, tiesSettled_of_choices hnested hsmall (h a b (.here a b))⟩
        have hxlt := length_of_mem_bodies hx
        have hylt := length_of_mem_bodies hy
        exact ih x.length hxlt (hnested.of_mem_bodies hx) (by omega)
          (fun x' y' hcompared => h x' y' (.inside hx hy hcompared)) rfl

/-! ### The order of siblings -/

/-- **Sibling order.** Moving siblings about anywhere in a well nested outline leads to a score that
the outline attains as it is, with the ties between rows left open. Where ties are settled, the
score stays. Where they are not, some of the outlines that are compared can be reordered so that the
alignment takes other children. The bound is far above the number of entries that fit in memory. -/
theorem align_reordered {a b : Outline} (hnested : a.WellNested)
    (hsmall : a.length + b.length + 1 < 2 ^ 63) :
    (∀ a', Reordered a a' → Attains a b (align a' b)) ∧
      (Settled a b → ∀ a', Reordered a a' → align a' b = align a b) ∧
      (¬ Settled a b → ∃ x y x', Compared a b x y ∧ Reordered x x' ∧
        ¬ (choices x' y).Perm (choices x y)) := by
  refine ⟨fun a' hreordered => ?_, fun h a' hreordered => ?_, fun h => ?_⟩
  · refine (Attains.reordered_iff hreordered).mp (attains_align ?_)
    rwa [hreordered.length_eq]
  · exact align_eq_of_choices hreordered.length_eq hsmall (h.reordered hreordered hsmall)
  · rw [settled_iff hnested hsmall] at h
    push Not at h
    obtain ⟨x, y, hcompared, x', hreordered, hchoices⟩ := h
    exact ⟨x, y, x', hcompared, hreordered, hchoices⟩

/-- Two single nodes are twins, and the node beside them is taken first for the other column. -/
theorem align_reordered_twins :
    align [⟨1, 3⟩, ⟨2, 4⟩, ⟨1, 2⟩, ⟨1, 1⟩] [⟨1, 5⟩, ⟨2, 6⟩, ⟨1, 7⟩] =
      align [⟨1, 1⟩, ⟨1, 2⟩, ⟨1, 3⟩, ⟨2, 4⟩] [⟨1, 5⟩, ⟨2, 6⟩, ⟨1, 7⟩] :=
  (align_reordered (by decide) (by decide)).2.1 (by decide +kernel) _
    ⟨1, [.node 1 [], .node 2 [], .node 3 [.node 4 []]],
      [.node 3 [.node 4 []], .node 2 [], .node 1 []], by simp [Forest.Fits, Tree.Fits, UInt32.size],
      (Forest.Reordering.cons 1 .nil (.swap _ _ _)).trans
        ((Forest.Reordering.swap _ _ _).trans (.cons 3 (.refl _) (.swap _ _ _))),
      rfl, rfl⟩

/-- Ties that are not settled do matter. A single node and a node with three children tie for the
only node of the other outline, and whichever comes first is taken. What is left over differs. -/
theorem exists_reordered_align_ne : ∃ a a' b : Outline, a.WellNested ∧ b.WellNested ∧
    Reordered a a' ∧ align a' b ≠ align a b := by
  refine ⟨[⟨1, 0⟩, ⟨2, 0⟩, ⟨2, 0⟩, ⟨2, 0⟩, ⟨1, 0⟩], [⟨1, 0⟩, ⟨1, 0⟩, ⟨2, 0⟩, ⟨2, 0⟩, ⟨2, 0⟩],
    [⟨1, 0⟩, ⟨2, 0⟩], by decide, by decide, ?_, by decide +kernel⟩
  refine ⟨1, [.node 0 [.node 0 [], .node 0 [], .node 0 []], .node 0 []],
    [.node 0 [], .node 0 [.node 0 [], .node 0 [], .node 0 []]], ?_, .swap _ _ _, rfl, rfl⟩
  simp [Forest.Fits, Tree.Fits, UInt32.size]

end Outline

end Likeness
