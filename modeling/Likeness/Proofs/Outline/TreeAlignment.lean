import Likeness.Proofs.Outline.Children
import Likeness.Proofs.Outline.Conservation
import Likeness.Proofs.Outline.Extraction
import Likeness.Proofs.Outline.Shape

/-!
# Likeness.Proofs.Outline.TreeAlignment

The alignment on trees. `Forest.align` is the greedy alignment of two forests whose children are at
hand as lists of trees. It knows nothing of depths and labels, of outlines or of tables that are
cleared.

On the preorders of two forests the alignment of outlines gives the same score
(`Outline.align_refines`), whatever depths they start at. The children of an outline are the trees
of the forest (`Forest.bodies_flatten`), the lengths of outlines are the sizes of forests, and the
rounds take the same cells (`Grid.picks_eq_extract`).
-/

namespace Likeness

namespace Forest

/-! ### The alignment of forests -/

open Grid

/-- The score in a row and a column of a table of scores; the empty score outside of it. -/
def scoreAt (table : List (List Score)) (p : Cell) : Score :=
  ((table[p.1]?).bind fun row => row[p.2]?).getD 0

/-- The number of nodes of the trees whose positions were not taken. -/
def unmatched (F : Forest) (taken : List Nat) : Nat :=
  ((F.zipIdx.filter fun (_, i) => !taken.contains i).map fun (t, _) => t.size).sum

/-- The score of two forests whose trees have the scores `table`. The cells taken add up, the parents
of the forests count as one match, and trees left over on the longer side count in full. -/
def combine (F G : Forest) (table : List (List Score)) : Score :=
  let taken := extract (scoreAt table) (min F.length G.length) (List.range F.length)
    (List.range G.length)
  let cells := (taken.map (scoreAt table)).sum
  let penalty :=
    if G.length < F.length then unmatched F (taken.map Prod.fst)
    else if F.length < G.length then unmatched G (taken.map Prod.snd)
    else 0
  ⟨1 + cells.matched, 1 + cells.total + penalty⟩

/-- The greedy alignment of two forests. -/
def align (F G : Forest) : Score :=
  if F = [] ∧ G = [] then ⟨1, 1⟩
  else if F = [] then ⟨1, size G + 1⟩
  else if G = [] then ⟨1, size F + 1⟩
  else combine F G (F.attach.map fun s => G.map fun t => align s.1.children t.children)
termination_by size F
decreasing_by exact size_children_lt s.2

/-- The scores of the trees of two forests. -/
def table (F G : Forest) : List (List Score) :=
  F.map fun s => G.map fun t => align s.children t.children

theorem align_eq (F G : Forest) :
    align F G = if F = [] ∨ G = [] then ⟨1, size F + size G + 1⟩ else combine F G (table F G) := by
  have htable : (F.attach.map fun s => G.map fun t => align s.1.children t.children) = table F G :=
    List.attach_map_val (f := fun s : Tree => G.map fun t => align s.children t.children)
  rw [align, htable]
  by_cases hF : F = []
  · by_cases hG : G = []
    · simp [hF, hG, size]
    · simp [hF, hG, size]
  · by_cases hG : G = []
    · simp [hF, hG, size]
    · simp [hF, hG]

theorem scoreAt_table (F G : Forest) (p : Cell) :
    scoreAt (table F G) p =
      ((F[p.1]?).bind fun s => (G[p.2]?).map fun t => align s.children t.children).getD 0 := by
  rw [scoreAt, table, List.getElem?_map]
  cases F[p.1]? with
  | none => rfl
  | some s => simp

end Forest

/-! ### Labels play no part -/

mutual
theorem Tree.size_unlabelled : ∀ t : Tree, t.unlabelled.size = t.size
  | .node _ children => congrArg (· + 1) (Forest.size_unlabelled children)
theorem Forest.size_unlabelled :
    ∀ F : List Tree, Forest.size (Forest.unlabelled F) = Forest.size F
  | [] => rfl
  | t :: F => congrArg₂ (· + ·) (Tree.size_unlabelled t) (Forest.size_unlabelled F)
end

namespace Forest

open Grid

theorem unmatched_unlabelled (F : Forest) (taken : List Nat) :
    unmatched (unlabelled F) taken = unmatched F taken := by
  rw [unmatched, unmatched, unlabelled_eq_map, List.zipIdx_map, List.filter_map, List.map_map]
  exact congrArg List.sum (List.map_congr_left fun p _ => p.1.size_unlabelled)

theorem combine_unlabelled (F G : Forest) (table : List (List Score)) :
    combine (unlabelled F) (unlabelled G) table = combine F G table := by
  have hlength (F : Forest) : (unlabelled F).length = F.length := by
    rw [unlabelled_eq_map, List.length_map]
  simp only [combine, hlength, unmatched_unlabelled]

/-- The alignment of two forests is that of the forests without labels. -/
theorem align_unlabelled (F G : Forest) : align (unlabelled F) (unlabelled G) = align F G := by
  induction F, G using children_induction with
  | below F G ih =>
      have hnil (F : Forest) : unlabelled F = [] ↔ F = [] := by
        rw [unlabelled_eq_map, List.map_eq_nil_iff]
      have htable : table (unlabelled F) (unlabelled G) = table F G := by
        rw [table, table, unlabelled_eq_map F, unlabelled_eq_map G, List.map_map]
        refine List.map_congr_left fun s hs => ?_
        rw [Function.comp_apply, List.map_map]
        refine List.map_congr_left fun t ht => ?_
        rw [Function.comp_apply, Tree.children_unlabelled, Tree.children_unlabelled]
        exact ih s hs t ht
      simp only [align_eq (unlabelled F), align_eq F, hnil, size_unlabelled, htable,
        combine_unlabelled]

end Forest

/-! ### Outlines and forests -/

namespace Outline

open Grid Forest

theorem startOf_map_flatten (depth : Nat) (F : Forest) (i : Nat) :
    startOf (F.map fun t => flatten (depth + 1) t.children) i = size (F.take i) := by
  induction F generalizing i with
  | nil => rw [List.take_nil, List.map_nil, startOf, size]
  | cons t F ih =>
      cases i with
      | zero => rfl
      | succ i =>
          rw [List.map_cons, startOf, ih, Forest.length_flatten, List.take_succ_cons, size,
            Tree.size_eq]

/-- The children of a forest in preorder start where the trees before them end. -/
theorem childStarts_flatten {depth : Nat} {F : Forest} (hF : Fits depth F) :
    (flatten depth F).childStarts = (List.range (F.length + 1)).map fun i => size (F.take i) := by
  rw [childStarts_eq, bodies_flatten hF, List.length_map]
  exact List.map_congr_left fun i _ => startOf_map_flatten depth F i

theorem leftOver_map_flatten (depth : Nat) (F : Forest) (taken : List Nat) :
    leftOver (F.map fun t => flatten (depth + 1) t.children) taken = unmatched F taken := by
  rw [leftOver_eq_sum, unmatched, List.zipIdx_map, List.filter_map, List.map_map]
  refine congrArg List.sum (List.map_congr_left fun p _ => ?_)
  change (flatten (depth + 1) p.1.children).length + 1 = p.1.size
  rw [Forest.length_flatten, Tree.size_eq]

/-- **One level.** The table of two outlines and the table of their forests give the same score when
they hold the same cells. -/
theorem combine_eq {F G : Forest} {depth depth' : Nat} {g : Grid Score} (hpos : g.Positive)
    (hrows : g.rows = F.length) (hcols : g.cols = G.length) {table : List (List Score)}
    (hcell : ∀ p, g.cell p = scoreAt table p) :
    combine (F.map fun t => flatten (depth + 1) t.children)
        (G.map fun t => flatten (depth' + 1) t.children) g = Forest.combine F G table := by
  obtain ⟨-, hscore⟩ := stable_picks hpos
  have htaken : picks g.rounds g = extract (scoreAt table) (min F.length G.length)
      (List.range F.length) (List.range G.length) := by
    rw [picks_eq_extract hpos, funext hcell, rounds, hrows, hcols]
  have hleft : leftOver (F.map fun t => flatten (depth + 1) t.children) g.greedy.rows =
      unmatched F ((picks g.rounds g).map Prod.fst) := by
    rw [← leftOver_map_flatten depth]
    exact leftOver_congr fun i => by simp [mem_greedy_rows]
  have hright : leftOver (G.map fun t => flatten (depth' + 1) t.children) g.greedy.cols =
      unmatched G ((picks g.rounds g).map Prod.snd) := by
    rw [← leftOver_map_flatten depth']
    exact leftOver_congr fun j => by simp [mem_greedy_cols]
  simp only [combine, Forest.combine, hscore, hleft, hright, List.length_map, ← htaken,
    funext hcell, Score.matched_add, Score.total_add]

/-- The alignment of two forests in preorder. -/
theorem align_flatten {F G : Forest} {depth depth' : Nat} (hF : Fits depth F)
    (hG : Fits depth' G) (hsmall : size F + size G + 1 < 2 ^ 63) :
    align (flatten depth F) (flatten depth' G) = Forest.align F G := by
  induction F, G using children_induction generalizing depth depth' with
  | below F G ih =>
      have hlengthF := Forest.length_flatten depth F
      have hlengthG := Forest.length_flatten depth' G
      have hnil : flatten depth F = [] ∨ flatten depth' G = [] ↔ F = [] ∨ G = [] :=
        or_congr flatten_eq_nil flatten_eq_nil
      rw [align_eq, Forest.align_eq, hlengthF, hlengthG]
      by_cases hne : F = [] ∨ G = []
      · rw [if_pos (hnil.mpr hne), if_pos hne]
      · obtain ⟨hrows, hcols⟩ := size_childScores (hnil.not.mpr hne)
        rw [if_neg (hnil.not.mpr hne), if_neg hne, bodies_flatten hF, bodies_flatten hG]
        refine combine_eq (positive_childScores (by omega)) ?_ ?_ fun p => ?_
        · rw [hrows, bodies_flatten hF, List.length_map]
        · rw [hcols, bodies_flatten hG, List.length_map]
        · rw [cell_childScores, scoreAt_table, bodies_flatten hF, bodies_flatten hG,
            List.getElem?_map, List.getElem?_map]
          cases hs : F[p.1]? with
          | none => rfl
          | some s =>
              cases ht : G[p.2]? with
              | none => rfl
              | some t =>
                  have hs := List.mem_of_getElem? hs
                  have ht := List.mem_of_getElem? ht
                  have hsizeF := size_children_lt hs
                  have hsizeG := size_children_lt ht
                  exact ih s hs t ht (hF.children hs) (hG.children ht) (by omega)

/-- **Refinement.** On the preorders of two forests the alignment of outlines is the alignment of the
forests. Hence it does not change with the labels, nor with the depths that the forests start at. -/
theorem align_refines {F G : Forest} {depth depth' : Nat} (hF : Fits depth F)
    (hG : Fits depth' G) (hsmall : size F + size G + 1 < 2 ^ 63) :
    align (flatten depth F) (flatten depth' G) = Forest.align F G ∧
      ∀ (start start' : Nat) (F' G' : Forest), Fits start F' → Fits start' G' →
        unlabelled F' = unlabelled F → unlabelled G' = unlabelled G →
        align (flatten start F') (flatten start' G') =
          align (flatten depth F) (flatten depth' G) := by
  refine ⟨align_flatten hF hG hsmall, fun start start' F' G' hF' hG' hsameF hsameG => ?_⟩
  have hsizeF : size F' = size F := by
    rw [← size_unlabelled F', hsameF, size_unlabelled]
  have hsizeG : size G' = size G := by
    rw [← size_unlabelled G', hsameG, size_unlabelled]
  calc align (flatten start F') (flatten start' G')
      = Forest.align F' G' := align_flatten hF' hG' (by omega)
    _ = Forest.align F G := by
        rw [← align_unlabelled F' G', hsameF, hsameG, align_unlabelled]
    _ = align (flatten depth F) (flatten depth' G) := (align_flatten hF hG hsmall).symm

/-- Forests that differ in their labels and start at different depths. -/
theorem align_refines_relabelled :
    align (flatten 3 [.node 1 [], .node 2 [.node 3 []]]) (flatten 0 [.node 4 [.node 5 []]]) =
        ⟨3, 4⟩ ∧
      align (flatten 6 [.node 0 [], .node 0 [.node 0 []]]) (flatten 9 [.node 7 [.node 7 []]]) =
        ⟨3, 4⟩ := by
  have hF : Fits 3 [.node 1 [], .node 2 [.node 3 []]] := by simp [Fits, Tree.Fits, UInt32.size]
  have hG : Fits 0 [.node 4 [.node 5 []]] := by simp [Fits, Tree.Fits, UInt32.size]
  have hF' : Fits 6 [.node 0 [], .node 0 [.node 0 []]] := by simp [Fits, Tree.Fits, UInt32.size]
  have hG' : Fits 9 [.node 7 [.node 7 []]] := by simp [Fits, Tree.Fits, UInt32.size]
  obtain ⟨hrefines, hsame⟩ := align_refines hF hG (by decide)
  have hscore : Forest.align [.node 1 [], .node 2 [.node 3 []]] [.node 4 [.node 5 []]] =
      ⟨3, 4⟩ := by
    decide +kernel
  rw [hscore] at hrefines
  exact ⟨hrefines, (hsame _ _ _ _ hF' hG' rfl rfl).trans hrefines⟩

end Outline

end Likeness
