import Likeness.Proofs.Outline.Identity

/-!
# Likeness.Proofs.Outline.Containment

An outline whose trees are all found in another one is matched completely, whatever else the other
outline holds (`Outline.align_includedIn`).

The trees of both sides fall into classes by their shapes, and the other side has at least as many of each
class. A full cell is one in which a tree meets a tree of its class. The trees in surplus tie with the
others of their class, and may come first, but as long as a tree of the first side goes without a full
cell there is one of its class on the other side that does (`Grid.Positive.rows_paired`). So all
nodes of the first side are matched, and by the law of conservation the rest of the other side is what is
left over.
-/

namespace Likeness

namespace Outline

open Grid Forest

/-- A level in which full cells take all children of the first side matches that side completely. -/
theorem matched_combine_of_full {a b : List Outline} {g : Grid Score} (h : BalancedTable a b g)
    (hpos : g.Positive) (hfull : ∀ p ∈ picks g.rounds g, (g.cell p).matched = (g.cell p).total)
    (hrows : ∀ i < a.length, i ∈ (picks g.rounds g).map Prod.fst) :
    (combine a b g).matched = (a.map fun x => x.length + 1).sum + 1 := by
  obtain ⟨hstable, -⟩ := stable_picks hpos
  have htaken : ∀ p ∈ picks g.rounds g, p.1 < a.length ∧ p.2 < b.length := fun p hp =>
    h.1 ▸ h.2.1 ▸ lt_of_weight_pos (hstable.positive p hp)
  obtain ⟨hsum, hsumLeft, hsumRight⟩ := h.sum_picks htaken
  have hsumFull := (sum_full_iff fun p hp => (hfull p hp).le).2.mpr hfull
  have hall := leftOver_add_taken a (List.pairwise_map.mpr (hstable.apart.imp And.left))
    (List.forall_mem_map.mpr fun p hp => (htaken p hp).1)
  rw [leftOver_eq_zero hrows] at hall
  rw [combine_of_positive h.1 h.2.1 hpos]
  show 1 + _ = _
  omega

/-- Cells are full just where two trees of the same class meet. -/
theorem full_cell_iff {F G : Forest} {depth depth' : Nat} (hF : Fits depth F) (hG : Fits depth' G)
    (hsmall : (flatten depth F).length + (flatten depth' G).length < 2 ^ 53) {i j : Nat}
    (hi : i < F.length) (hj : j < G.length) :
    ((childScores (flatten depth F) (flatten depth' G)).cell (i, j)).matched =
        ((childScores (flatten depth F) (flatten depth' G)).cell (i, j)).total ↔
      childShapeAt F i = childShapeAt G j := by
  have hs := List.getElem_mem hi
  have ht := List.getElem_mem hj
  have hbodyF : (flatten depth F).bodies[i]? = some (flatten (depth + 1) (F[i]).children) := by
    simp [bodies_flatten hF, hi]
  have hbodyG : (flatten depth' G).bodies[j]? = some (flatten (depth' + 1) (G[j]).children) := by
    simp [bodies_flatten hG, hj]
  have hless := length_add_lt (List.mem_of_getElem? hbodyF) (List.mem_of_getElem? hbodyG)
  rw [cell_childScores, hbodyF, hbodyG, childShapeAt_of_lt hi, childShapeAt_of_lt hj]
  exact full_align_iff (hF.children hs) (hG.children ht) (by omega)

/-- Two forests in preorder, the trees of the first of which are found among those of the second. -/
theorem matched_align_of_subperm {F G : Forest} {depth depth' : Nat} (hF : Fits depth F)
    (hG : Fits depth' G) (hsmall : (flatten depth F).length + (flatten depth' G).length < 2 ^ 53)
    (hclasses : (childShapes F).Subperm (childShapes G)) :
    (align (flatten depth F) (flatten depth' G)).matched = (flatten depth F).length + 1 := by
  classical
  rw [align_eq]
  split
  next hempty =>
    -- Only the first forest can be without trees alone.
    have hnil : F = [] := by
      rcases hempty with h | h
      · exact flatten_eq_nil.mp h
      · rw [flatten_eq_nil.mp h] at hclasses
        simpa [childShapes] using hclasses
    rw [hnil]
    rfl
  next hne =>
    obtain ⟨hrows, hcols⟩ := size_childScores hne
    have htable := balancedTable_childScores hne (by omega)
    have hpos := positive_childScores (a := flatten depth F) (b := flatten depth' G) (by omega)
    have hlt : ∀ x ∈ (flatten depth F).bodies, ∀ y ∈ (flatten depth' G).bodies,
        x.length + y.length + 1 < 2 ^ 53 := fun x hx y hy =>
      Nat.lt_trans (length_add_lt hx hy) hsmall
    rw [bodies_flatten hF, List.length_map] at hrows
    rw [bodies_flatten hG, List.length_map] at hcols
    have hcount : ∀ c, ((List.range F.length).map (childShapeAt F)).count c ≤
        ((List.range G.length).map (childShapeAt G)).count c := by
      rw [map_childShapeAt, map_childShapeAt]
      exact fun c => hclasses.count_le c
    rw [← hrows, ← hcols] at hcount
    obtain ⟨hfull, hall⟩ := hpos.rows_paired (by decide)
      (fun i hi j hj => (htable.full_cells hlt hi hj).1)
      (fun i hi j hj => (htable.full_cells hlt hi hj).2.trans
        (full_cell_iff hF hG hsmall (hrows ▸ hi) (hcols ▸ hj))) hcount
    rw [matched_combine_of_full htable hpos ?_ ?_, ← length_eq_sum]
    · intro p hp
      obtain ⟨hi, hj⟩ := lt_of_weight_pos ((stable_picks hpos).1.positive p hp)
      exact (htable.full_cells hlt hi hj).2.mp (hfull p hp)
    · exact fun i hi => hall i (htable.1 ▸ hi)

/-- Two well nested outlines, and the trees of the first are found among those of the second: some of
the second, in some order, are those of the first but for their labels and for the order of siblings at any
level, and the rest are whatever they are. -/
def IncludedIn (a b : Outline) : Prop :=
  ∃ (depth depth' : Nat) (F G part rest : Forest), Fits depth F ∧ Fits depth' G ∧
    flatten depth F = a ∧ flatten depth' G = b ∧ G.Perm (part ++ rest) ∧
    Reordering (unlabelled F) (unlabelled part)

/-- **Containment.** If the trees of one outline are found among those of another, all its nodes are
matched, and nothing that stands beside them hides them. The bound is far above the number of entries that
fit in memory: up to it a ratio tells full cells apart. -/
theorem align_includedIn {a b : Outline} (h : IncludedIn a b) (hsmall : a.length + b.length < 2 ^ 53) :
    align a b = ⟨a.length + 1, b.length + 1⟩ := by
  obtain ⟨depth, depth', F, G, part, rest, hF, hG, rfl, rfl, hperm, hreordering⟩ := h
  have hclasses : (childShapes F).Subperm (childShapes G) := by
    have hpart := shape_eq_iff.mp (shape_eq_iff_reordering.mpr hreordering)
    have hparts : (childShapes G).Perm (childShapes part ++ childShapes rest) := by
      rw [childShapes, childShapes, childShapes, ← List.map_append]
      exact hperm.map _
    exact (hpart.subperm.trans (List.sublist_append_left _ _).subperm).trans hparts.symm.subperm
  have hmatched := matched_align_of_subperm hF hG hsmall hclasses
  have hconserved := (balanced_align (a := flatten depth F) (b := flatten depth' G)
    (by omega)).conserved
  ext
  · exact hmatched
  · show (align (flatten depth F) (flatten depth' G)).total = (flatten depth' G).length + 1
    omega

/-- A leaf and a node with a leaf and a deeper node below it, padded with trees that tie with them. -/
theorem align_includedIn_padded :
    IncludedIn [⟨1, 1⟩, ⟨1, 2⟩, ⟨2, 3⟩, ⟨2, 4⟩, ⟨3, 5⟩]
        [⟨0, 0⟩, ⟨1, 0⟩, ⟨0, 6⟩, ⟨1, 6⟩, ⟨2, 6⟩, ⟨1, 7⟩, ⟨0, 9⟩, ⟨0, 8⟩] ∧
      align [⟨1, 1⟩, ⟨1, 2⟩, ⟨2, 3⟩, ⟨2, 4⟩, ⟨3, 5⟩]
        [⟨0, 0⟩, ⟨1, 0⟩, ⟨0, 6⟩, ⟨1, 6⟩, ⟨2, 6⟩, ⟨1, 7⟩, ⟨0, 9⟩, ⟨0, 8⟩] = ⟨6, 9⟩ := by
  have hincluded : IncludedIn [⟨1, 1⟩, ⟨1, 2⟩, ⟨2, 3⟩, ⟨2, 4⟩, ⟨3, 5⟩]
      [⟨0, 0⟩, ⟨1, 0⟩, ⟨0, 6⟩, ⟨1, 6⟩, ⟨2, 6⟩, ⟨1, 7⟩, ⟨0, 9⟩, ⟨0, 8⟩] := by
    refine ⟨1, 0, [.node 1 [], .node 2 [.node 3 [], .node 4 [.node 5 []]]],
      [.node 0 [.node 0 []], .node 6 [.node 6 [.node 6 []], .node 7 []], .node 9 [], .node 8 []],
      [.node 9 [], .node 6 [.node 6 [.node 6 []], .node 7 []]], [.node 0 [.node 0 []], .node 8 []],
      by simp [Fits, Tree.Fits, UInt32.size], by simp [Fits, Tree.Fits, UInt32.size], rfl, rfl, ?_, ?_⟩
    · exact ((List.Perm.swap _ _ _).cons _).trans
        ((List.Perm.swap _ _ _).trans ((List.Perm.swap _ _ _).cons _))
    · exact .cons 0 .nil (.cons 0 (.swap _ _ _) .nil)
  exact ⟨hincluded, align_includedIn hincluded (by decide)⟩

end Outline

end Likeness
