import Likeness.Outline.Alignment
import Likeness.Proofs.Outline.Rounds

/-!
# Likeness.Proofs.Outline.Alignment

One level of the alignment: its table, its children and what is left over of them.

The entries of an outline are the headings and the bodies of its children
(`Outline.length_eq_sum`), and the children of one side are those taken and those left over
(`Outline.leftOver_add_taken`).
-/

namespace Likeness

namespace Grid

/-- A table does not depend on the proofs that come with the elements of its lists. -/
theorem ofLists_attach (as : List α) (bs : List β) (f : α → β → γ) :
    ofLists as.attach bs.attach (fun x y => f x.1 y.1) = ofLists as bs f := by
  simp [ofLists]

end Grid

namespace Outline

/-! ### Children -/

theorem length_eq_sum_bodiesAt (d : UInt32) (o : Outline) :
    o.length = ((bodiesAt d o).map fun b => b.length + 1).sum := by
  fun_induction bodiesAt d o with
  | case1 => rfl
  | case2 e rest ih =>
      have hsplit := congrArg List.length (List.takeWhile_append_dropWhile
        (p := fun e : Entry => decide (e.depth ≠ d)) (l := rest))
      rw [List.length_append] at hsplit
      rw [List.map_cons, List.sum_cons, ← ih, List.length_cons]
      omega

/-- The entries of an outline are the headings and the bodies of its children. -/
theorem length_eq_sum (o : Outline) : o.length = (o.bodies.map fun b => b.length + 1).sum := by
  cases o with
  | nil => rfl
  | cons e rest => exact length_eq_sum_bodiesAt e.depth (e :: rest)

theorem bodies_eq_nil {o : Outline} : o.bodies = [] ↔ o = [] := by
  constructor
  · intro h
    have hlength := o.length_eq_sum
    rw [h] at hlength
    exact List.eq_nil_of_length_eq_zero hlength
  · rintro rfl
    rfl

/-- Going down to two bodies leaves out their headings. -/
theorem length_add_lt {a b x y : Outline} (hx : x ∈ a.bodies) (hy : y ∈ b.bodies) :
    x.length + y.length + 1 < a.length + b.length := by
  have hleft := length_of_mem_bodies hx
  have hright := length_of_mem_bodies hy
  omega

/-- A statement about two outlines holds if it follows from what it says of the bodies of their
children, as the alignment does. -/
theorem bodies_induction {motive : Outline → Outline → Prop}
    (below : ∀ a b, (∀ x ∈ a.bodies, ∀ y ∈ b.bodies, motive x y) → motive a b) (a b : Outline) :
    motive a b := by
  induction hn : a.length using Nat.strong_induction_on generalizing a b with
  | _ n ih =>
      subst hn
      exact below a b fun x hx y _ => ih x.length (length_of_mem_bodies hx) x y rfl

/-! ### The table of two outlines -/

theorem full_childScores (a b : Outline) : (childScores a b).Full := by
  unfold childScores
  split
  · rfl
  · exact Grid.full_ofLists _ _ _

/-- The alignment, by the table of the children. -/
theorem align_eq (a b : Outline) :
    align a b = if a = [] ∨ b = [] then ⟨1, a.length + b.length + 1⟩
      else combine a.bodies b.bodies (childScores a b) := by
  rw [align, childScores]
  split
  · rfl
  · rw [Grid.ofLists_attach]

/-! ### Children left over -/

/-- The length of a child with its heading. -/
def childSize (bodies : List Outline) (i : Nat) : Nat :=
  ((bodies[i]?).map fun b => b.length + 1).getD 0

theorem childSize_congr {bodies bodies' : List Outline}
    (h : bodies'.map List.length = bodies.map List.length) :
    childSize bodies' = childSize bodies := by
  funext i
  have hi := congrArg (fun l : List Nat => (l[i]?).map (· + 1)) h
  simp only [List.getElem?_map, Option.map_map] at hi
  exact congrArg (·.getD 0) hi

/-- What is left over only depends on which positions were taken. -/
theorem leftOver_congr {bodies : List Outline} {s t : List Nat} (h : ∀ i, i ∈ s ↔ i ∈ t) :
    leftOver bodies s = leftOver bodies t := by
  simp only [leftOver, List.contains_eq_mem, h]

theorem leftOver_eq_sum (bodies : List Outline) (taken : List Nat) :
    leftOver bodies taken =
      ((bodies.zipIdx.filter fun p => !taken.contains p.2).map fun p => p.1.length + 1).sum := by
  rw [List.sum_eq_foldl, List.foldl_map]
  rfl

/-- The children of one side are those taken and those left over. -/
theorem leftOver_add_taken (bodies : List Outline) {taken : List Nat} (hnodup : taken.Nodup)
    (hlt : ∀ i ∈ taken, i < bodies.length) :
    leftOver bodies taken + (taken.map (childSize bodies)).sum =
      (bodies.map fun b => b.length + 1).sum := by
  have hparts := (List.filter_append_perm (fun p : Outline × Nat => taken.contains p.2)
    bodies.zipIdx).map fun p => p.1.length + 1
  have htaken : ((bodies.zipIdx.filter fun p => taken.contains p.2).map Prod.snd).Perm taken := by
    refine (List.perm_ext_iff_of_nodup ?_ hnodup).mpr fun i => ?_
    · have hindex : (bodies.zipIdx.map Prod.snd).Nodup := by simp [List.nodup_range']
      exact hindex.sublist (List.filter_sublist.map _)
    · simp only [List.mem_map, List.mem_filter, List.contains_eq_mem, decide_eq_true_eq]
      constructor
      · rintro ⟨p, ⟨-, hp⟩, rfl⟩
        exact hp
      · intro hi
        exact ⟨(bodies.get ⟨i, hlt i hi⟩, i), ⟨by simp [List.mem_zipIdx_iff_getElem?], hi⟩, rfl⟩
  have hsize : (bodies.zipIdx.filter fun p => taken.contains p.2).map (fun p => p.1.length + 1) =
      ((bodies.zipIdx.filter fun p => taken.contains p.2).map Prod.snd).map (childSize bodies) := by
    rw [List.map_map]
    refine List.map_congr_left fun p hp => ?_
    have hget := List.mem_zipIdx_iff_getElem?.mp (List.mem_of_mem_filter hp)
    simp [childSize, hget]
  have hall : bodies.zipIdx.map (fun p => p.1.length + 1) = bodies.map fun b => b.length + 1 := by
    have hfst : bodies.zipIdx.map Prod.fst = bodies := List.zipIdx_map_fst 0 bodies
    conv_rhs => rw [← hfst, List.map_map]
    rfl
  have hsum := hparts.sum_eq
  rw [List.map_append, List.sum_append, hall, hsize, (htaken.map (childSize bodies)).sum_eq,
    Nat.add_comm] at hsum
  rw [leftOver_eq_sum]
  exact hsum

end Outline

end Likeness
