import Mathlib.Data.List.Basic
import Likeness.Outline.Basic

/-!
# Likeness.Proofs.Outline.Forest

Ordered labelled forests, which outlines are the preorders of.

`Forest.flatten` writes a forest down with the depth growing by one from level to level, and the
children of what is written are the trees of the forest (`Forest.bodies_flatten`): splitting an
outline at the entries of its first depth is going down one level of the forest.

`Forest.Reordering` moves siblings about, at the top and below any node. Statements about two
forests are proved by going down to the children of their trees (`Forest.children_induction`).
-/

namespace Likeness

/-- An ordered tree with labels. -/
inductive Tree where
  | node (label : UInt32) (children : List Tree)

abbrev Forest := List Tree

def Tree.children : Tree → Forest
  | .node _ children => children

/-! ### Preorder -/

mutual
/-- A tree in preorder, its root at the given depth. -/
def Tree.flatten (depth : Nat) : Tree → Outline
  | .node label children => ⟨.ofNat depth, label⟩ :: Forest.flatten (depth + 1) children
/-- A forest in preorder, its roots at the given depth. -/
def Forest.flatten (depth : Nat) : List Tree → Outline
  | [] => []
  | t :: rest => t.flatten depth ++ Forest.flatten depth rest
end

mutual
/-- All depths of a tree can be written down. -/
def Tree.Fits (depth : Nat) : Tree → Prop
  | .node _ children => depth < UInt32.size ∧ Forest.Fits (depth + 1) children
/-- All depths of a forest can be written down. -/
def Forest.Fits (depth : Nat) : List Tree → Prop
  | [] => True
  | t :: rest => t.Fits depth ∧ Forest.Fits depth rest
end

namespace Forest

@[simp] theorem flatten_nil (depth : Nat) : flatten depth [] = [] := rfl

theorem flatten_cons (depth : Nat) (label : UInt32) (children rest : Forest) :
    flatten depth (.node label children :: rest) =
      ⟨.ofNat depth, label⟩ :: (flatten (depth + 1) children ++ flatten depth rest) := rfl

theorem flatten_append (depth : Nat) (F G : Forest) :
    flatten depth (F ++ G) = flatten depth F ++ flatten depth G := by
  induction F with
  | nil => rfl
  | cons t F ih => rw [List.cons_append, flatten, flatten, ih, List.append_assoc]

theorem flatten_eq_nil {depth : Nat} {F : Forest} : flatten depth F = [] ↔ F = [] := by
  cases F with
  | nil => simp
  | cons t F =>
      obtain ⟨label, children⟩ := t
      simp [flatten_cons]

theorem fits_cons {depth : Nat} {label : UInt32} {children rest : Forest} :
    Fits depth (.node label children :: rest) ↔
      (depth < UInt32.size ∧ Fits (depth + 1) children) ∧ Fits depth rest := Iff.rfl

@[simp] theorem fits_append {depth : Nat} {F G : Forest} :
    Fits depth (F ++ G) ↔ Fits depth F ∧ Fits depth G := by
  induction F with
  | nil => simp [Fits]
  | cons t F ih => simp only [List.cons_append, Fits, ih, and_assoc]

theorem Fits.of_mem {depth : Nat} {F : Forest} (h : Fits depth F) {t : Tree} (ht : t ∈ F) :
    t.Fits depth := by
  induction F with
  | nil => cases ht
  | cons s F ih =>
      rcases List.mem_cons.mp ht with rfl | ht
      · exact h.1
      · exact ih h.2 ht

theorem Fits.children {depth : Nat} {F : Forest} (h : Fits depth F) {t : Tree} (ht : t ∈ F) :
    Fits (depth + 1) t.children := by
  obtain ⟨label, children⟩ := t
  exact (h.of_mem ht).2

end Forest

/-! ### Sizes -/

mutual
/-- The number of nodes of a tree. -/
def Tree.size : Tree → Nat
  | .node _ children => Forest.size children + 1
/-- The number of nodes of a forest. -/
def Forest.size : List Tree → Nat
  | [] => 0
  | t :: rest => t.size + Forest.size rest
end

theorem Tree.size_eq (t : Tree) : t.size = Forest.size t.children + 1 := by
  cases t
  rfl

mutual
theorem Tree.length_flatten (depth : Nat) : ∀ t : Tree, (t.flatten depth).length = t.size
  | .node _ children => congrArg (· + 1) (Forest.length_flatten (depth + 1) children)
theorem Forest.length_flatten (depth : Nat) :
    ∀ F : List Tree, (Forest.flatten depth F).length = Forest.size F
  | [] => rfl
  | t :: F => by
      rw [Forest.flatten, List.length_append, Tree.length_flatten depth t,
        Forest.length_flatten depth F, Forest.size]
end

namespace Forest

theorem size_children_lt {F : Forest} {t : Tree} (h : t ∈ F) : size t.children < size F := by
  induction F with
  | nil => cases h
  | cons s F ih =>
      rw [size]
      rcases List.mem_cons.mp h with rfl | h
      · rw [Tree.size_eq]
        omega
      · have := ih h
        omega

/-- A statement about two forests holds if it follows from what it says of the children of their
trees. -/
theorem children_induction {motive : Forest → Forest → Prop}
    (below : ∀ F G : Forest, (∀ s ∈ F, ∀ t ∈ G, motive s.children t.children) → motive F G)
    (F G : Forest) : motive F G := by
  induction hn : size F using Nat.strongRecOn generalizing F G with
  | ind n ih =>
      subst hn
      exact below F G fun s hs t _ => ih _ (size_children_lt hs) s.children t.children rfl

end Forest

/-! ### Depths -/

mutual
/-- No entry of a tree lies above its root. -/
theorem Tree.le_depth {depth : Nat} : ∀ {t : Tree}, t.Fits depth →
    ∀ e ∈ t.flatten depth, depth ≤ e.depth.toNat
  | .node label children, h, e, he => by
      obtain ⟨hlt, hchildren⟩ := h
      rcases List.mem_cons.mp he with rfl | he
      · exact Nat.le_of_eq (UInt32.toNat_ofNat_of_lt' hlt).symm
      · exact Nat.le_of_succ_le (Forest.le_depth hchildren e he)
/-- No entry of a forest lies above its roots. -/
theorem Forest.le_depth {depth : Nat} : ∀ {F : List Tree}, Forest.Fits depth F →
    ∀ e ∈ Forest.flatten depth F, depth ≤ e.depth.toNat
  | [], _, _, he => absurd he List.not_mem_nil
  | _ :: _, h, e, he => by
      rcases List.mem_append.mp he with he | he
      · exact Tree.le_depth h.1 e he
      · exact Forest.le_depth h.2 e he
end

namespace Forest

/-! ### Children -/

/-- A forest starts with an entry of its own depth, unless it is empty. -/
theorem flatten_eq_nil_or_cons (depth : Nat) (F : Forest) :
    flatten depth F = [] ∨ ∃ label rest, flatten depth F = ⟨.ofNat depth, label⟩ :: rest := by
  cases F with
  | nil => exact .inl rfl
  | cons t F =>
      obtain ⟨label, children⟩ := t
      exact .inr ⟨label, _, flatten_cons depth label children F⟩

/-- Cutting at the depth of a forest separates what lies below it from the forest. -/
theorem span_below {depth : Nat} (hdepth : depth < UInt32.size) {below : Outline}
    (hbelow : ∀ e ∈ below, depth + 1 ≤ e.depth.toNat) (F : Forest) :
    (below ++ flatten depth F).takeWhile (·.depth ≠ .ofNat depth) = below ∧
      (below ++ flatten depth F).dropWhile (·.depth ≠ .ofNat depth) = flatten depth F := by
  have hne : ∀ e ∈ below, decide (e.depth ≠ .ofNat depth) = true := by
    intro e he
    have hlt := hbelow e he
    simp only [decide_eq_true_eq]
    intro heq
    rw [heq, UInt32.toNat_ofNat', Nat.mod_eq_of_lt hdepth] at hlt
    omega
  rw [List.takeWhile_append_of_pos hne, List.dropWhile_append_of_pos hne]
  rcases flatten_eq_nil_or_cons depth F with h | ⟨label, rest, h⟩ <;> simp [h]

/-- The children of a forest in preorder are its trees. -/
theorem bodiesAt_flatten {depth : Nat} {F : Forest} (hF : Fits depth F) :
    Outline.bodiesAt (.ofNat depth) (flatten depth F) =
      F.map fun t => flatten (depth + 1) t.children := by
  induction F with
  | nil => simp [Outline.bodiesAt]
  | cons t F ih =>
      obtain ⟨label, children⟩ := t
      obtain ⟨⟨hdepth, hchildren⟩, hrest⟩ := fits_cons.mp hF
      obtain ⟨htake, hdrop⟩ := span_below hdepth (le_depth hchildren) F
      rw [flatten_cons, Outline.bodiesAt, htake, hdrop, ih hrest]
      rfl

theorem bodies_flatten {depth : Nat} {F : Forest} (hF : Fits depth F) :
    (flatten depth F).bodies = F.map fun t => flatten (depth + 1) t.children := by
  rcases flatten_eq_nil_or_cons depth F with h | ⟨label, rest, h⟩
  · rw [← bodiesAt_flatten hF, h]
    simp [Outline.bodies, Outline.bodiesAt]
  · rw [← bodiesAt_flatten hF, h]
    rfl

/-! ### Siblings in another order -/

/-- One forest comes from another by putting siblings in another order, at the top and below any
node. Two neighbours may change places, and reorderings may take place inside the trees and one
after another. -/
inductive Reordering : Forest → Forest → Prop
  | nil : Reordering [] []
  | cons {children children' rest rest' : Forest} (label : UInt32)
      (inside : Reordering children children') (beside : Reordering rest rest') :
      Reordering (.node label children :: rest) (.node label children' :: rest')
  | swap (s t : Tree) (rest : Forest) : Reordering (s :: t :: rest) (t :: s :: rest)
  | trans {F G H : Forest} (first : Reordering F G) (second : Reordering G H) : Reordering F H

namespace Reordering

theorem refl : ∀ F : Forest, Reordering F F
  | [] => .nil
  | .node label children :: rest => .cons label (refl children) (refl rest)

theorem symm {F G : Forest} (h : Reordering F G) : Reordering G F := by
  induction h with
  | nil => exact .nil
  | cons label _ _ ihInside ihBeside => exact .cons label ihInside ihBeside
  | swap s t rest => exact .swap t s rest
  | trans _ _ ihFirst ihSecond => exact ihSecond.trans ihFirst

theorem append_left {F G : Forest} (h : Reordering F G) :
    ∀ before : Forest, Reordering (before ++ F) (before ++ G)
  | [] => h
  | .node label children :: before => .cons label (refl children) (h.append_left before)

theorem of_perm {F G : Forest} (h : F.Perm G) : Reordering F G := by
  induction h with
  | nil => exact .nil
  | cons t _ ih =>
      obtain ⟨label, children⟩ := t
      exact .cons label (refl children) ih
  | swap s t rest => exact .swap t s rest
  | trans _ _ ihFirst ihSecond => exact .trans ihFirst ihSecond

/-- Reordering keeps the depths of all nodes. -/
theorem fits {F G : Forest} (h : Reordering F G) {depth : Nat} (hF : Fits depth F) :
    Fits depth G := by
  induction h generalizing depth with
  | nil => exact hF
  | cons label _ _ ihInside ihBeside =>
      obtain ⟨⟨hdepth, hchildren⟩, hrest⟩ := fits_cons.mp hF
      exact fits_cons.mpr ⟨⟨hdepth, ihInside hchildren⟩, ihBeside hrest⟩
  | swap s t rest =>
      obtain ⟨hs, ht, hrest⟩ := hF
      exact ⟨ht, hs, hrest⟩
  | trans _ _ ihFirst ihSecond => exact ihSecond (ihFirst hF)

/-- Reordering keeps the number of nodes. -/
theorem length_flatten {F G : Forest} (h : Reordering F G) (depth : Nat) :
    (flatten depth G).length = (flatten depth F).length := by
  induction h generalizing depth with
  | nil => rfl
  | cons label _ _ ihInside ihBeside =>
      simp only [flatten_cons, List.length_cons, List.length_append, ihInside, ihBeside]
  | swap s t rest =>
      simp only [flatten, List.length_append]
      omega
  | trans _ _ ihFirst ihSecond => exact (ihSecond depth).trans (ihFirst depth)

end Reordering

end Forest

end Likeness
