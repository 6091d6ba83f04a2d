import Likeness.Proofs.Outline.Forest

/-!
# Likeness.Proofs.Outline.Shape

Forests without labels and without an order of siblings.

Two forests have the same *shape* when one comes from the other by reordering siblings, labels
aside. Going down one level, this means that their trees can be paired off so that the children of
paired trees have the same shape. In other words, the shapes of the children of both forests are the
same up to order (`Forest.shape_eq_iff`), and this is how inductions over shapes go.
-/

namespace Likeness

/-! ### Labels -/

mutual
/-- A tree with all labels made equal. -/
def Tree.unlabelled : Tree → Tree
  | .node _ children => .node 0 (Forest.unlabelled children)
/-- A forest with all labels made equal. -/
def Forest.unlabelled : List Tree → Forest
  | [] => []
  | t :: rest => t.unlabelled :: Forest.unlabelled rest
end

@[simp] theorem Tree.children_unlabelled (t : Tree) :
    t.unlabelled.children = Forest.unlabelled t.children := by
  cases t
  rfl

namespace Forest

theorem unlabelled_eq_map (F : Forest) : unlabelled F = F.map Tree.unlabelled := by
  induction F with
  | nil => rfl
  | cons t F ih => rw [unlabelled, ih, List.map_cons]

/-! ### Reordering is an equivalence -/

/-- Two forests are alike when one reorders the other. -/
def reorderingSetoid : Setoid Forest where
  r := Reordering
  iseqv := ⟨Reordering.refl, Reordering.symm, Reordering.trans⟩

/-- Forests up to the order of siblings. -/
abbrev Shape : Type := Quotient reorderingSetoid

/-- What is left of a forest without its labels and the order of siblings. -/
def shape (F : Forest) : Shape := Quotient.mk reorderingSetoid (unlabelled F)

theorem shape_eq_iff_reordering {F G : Forest} :
    shape F = shape G ↔ Reordering (unlabelled F) (unlabelled G) :=
  ⟨Quotient.exact, fun h => Quotient.sound (s := reorderingSetoid) h⟩

/-! ### One level down -/

/-- The shapes of the children of the trees of a forest. -/
def childShapes (F : Forest) : List Shape := F.map fun t => shape t.children

/-- Reordering a forest moves the children of its trees about and reorders them. -/
theorem Reordering.map_children {F G : Forest} (h : Reordering F G) :
    (F.map fun t => Quotient.mk reorderingSetoid t.children).Perm
      (G.map fun t => Quotient.mk reorderingSetoid t.children) := by
  induction h with
  | nil => exact .nil
  | cons label inside _ _ ihBeside =>
      have hinside := Quotient.sound (s := reorderingSetoid) inside
      simp only [List.map_cons, Tree.children, hinside]
      exact ihBeside.cons _
  | swap s t rest => exact .swap _ _ _
  | trans _ _ ihFirst ihSecond => exact ihFirst.trans ihSecond

theorem childShapes_eq (F : Forest) :
    childShapes F = (unlabelled F).map fun t => Quotient.mk reorderingSetoid t.children := by
  rw [childShapes, unlabelled_eq_map, List.map_map]
  refine List.map_congr_left fun t _ => ?_
  rw [Function.comp_apply, Tree.children_unlabelled]
  rfl

/-- Trees that are paired off by the shapes of their children. -/
theorem reordering_of_childShapes {F G : Forest} (h : (childShapes F).Perm (childShapes G)) :
    Reordering (unlabelled F) (unlabelled G) := by
  induction F generalizing G with
  | nil =>
      have hG : G = [] := by simpa [childShapes] using h
      rw [hG]
      exact .nil
  | cons t F ih =>
      -- Some tree of `G` has children of the same shape as the first of `F`.
      have hmem : shape t.children ∈ childShapes G := h.mem_iff.mp List.mem_cons_self
      obtain ⟨s, hs, hshape⟩ := List.mem_map.mp hmem
      obtain ⟨before, after, rfl⟩ := List.append_of_mem hs
      have hmiddle : (before ++ s :: after).Perm (s :: (before ++ after)) := List.perm_middle
      have hrest : (childShapes F).Perm (childShapes (before ++ after)) := by
        have hcons : (shape t.children :: childShapes F).Perm
            (shape s.children :: childShapes (before ++ after)) :=
          h.trans (hmiddle.map fun t : Tree => shape t.children)
        rw [hshape] at hcons
        exact hcons.cons_inv
      have hfirst : Reordering (unlabelled (t :: F)) (unlabelled (s :: (before ++ after))) := by
        obtain ⟨label, children⟩ := t
        obtain ⟨label', children'⟩ := s
        exact .cons 0 (shape_eq_iff_reordering.mp hshape.symm) (ih hrest)
      refine hfirst.trans (.of_perm ?_)
      rw [unlabelled_eq_map, unlabelled_eq_map]
      exact (hmiddle.map Tree.unlabelled).symm

/-- **Shapes, one level down.** -/
theorem shape_eq_iff {F G : Forest} : shape F = shape G ↔ (childShapes F).Perm (childShapes G) := by
  rw [shape_eq_iff_reordering]
  constructor
  · intro h
    rw [childShapes_eq, childShapes_eq]
    exact h.map_children
  · exact reordering_of_childShapes

end Forest

end Likeness
