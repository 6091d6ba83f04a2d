import Mathlib.Data.Finset.Card
import Mathlib.Data.List.Induction
import Likeness.Sequence.Window

/-!
# Likeness.Proofs.Sequence.Window

Windows as sets. The distinct windows of a sequence are listed once each, so the numbers that the
overlap of two sequences is made of are those of the common windows and of all windows
(`Sequence.windowOverlap_eq`).
-/

namespace Likeness.Sequence

variable {α : Type} [DecidableEq α]

/-- One more element, unless it was met before. -/
def meet (seen : List α) (x : α) : List α := if seen.contains x then seen else x :: seen

theorem distinct_eq (xs : List α) : distinct xs = (xs.foldl meet []).reverse := rfl

theorem mem_foldl_meet {seen xs : List α} {x : α} :
    x ∈ xs.foldl meet seen ↔ x ∈ seen ∨ x ∈ xs := by
  induction xs generalizing seen with
  | nil => simp
  | cons y ys ih =>
      rw [List.foldl_cons, ih, List.mem_cons, meet]
      by_cases hy : seen.contains y = true
      · rw [if_pos hy]
        rw [List.contains_iff_mem] at hy
        constructor
        · exact Or.imp_right .inr
        · rintro (hx | rfl | hx)
          exacts [.inl hx, .inl hy, .inr hx]
      · rw [if_neg hy, List.mem_cons]
        tauto

theorem nodup_foldl_meet {seen xs : List α} (h : seen.Nodup) : (xs.foldl meet seen).Nodup := by
  induction xs generalizing seen with
  | nil => exact h
  | cons y ys ih =>
      rw [List.foldl_cons]
      refine ih ?_
      unfold meet
      split
      · exact h
      next hy =>
        rw [List.contains_iff_mem] at hy
        exact List.nodup_cons.mpr ⟨hy, h⟩

theorem mem_distinct {xs : List α} {x : α} : x ∈ distinct xs ↔ x ∈ xs := by
  rw [distinct_eq, List.mem_reverse, mem_foldl_meet]
  simp

theorem nodup_distinct (xs : List α) : (distinct xs).Nodup := by
  rw [distinct_eq, List.nodup_reverse]
  exact nodup_foldl_meet List.nodup_nil

/-- An element that was not met before comes last. -/
theorem distinct_concat (xs : List α) (x : α) :
    distinct (xs ++ [x]) = if x ∈ xs then distinct xs else distinct xs ++ [x] := by
  rw [distinct_eq, distinct_eq, List.foldl_append, List.foldl_cons, List.foldl_nil]
  have hmem : x ∈ xs.foldl meet [] ↔ x ∈ xs := by simp [mem_foldl_meet]
  by_cases hx : x ∈ xs
  · simp [meet, hmem, hx]
  · simp [meet, hmem, hx]

/-- What comes later does not change the distinct elements so far. -/
theorem distinct_append (xs ys : List α) : ∃ rest, distinct (xs ++ ys) = distinct xs ++ rest := by
  induction ys using List.reverseRecOn with
  | nil => exact ⟨[], by simp⟩
  | append_singleton ys y ih =>
      obtain ⟨rest, hrest⟩ := ih
      rw [← List.append_assoc, distinct_concat, hrest]
      split
      · exact ⟨rest, rfl⟩
      · exact ⟨rest ++ [y], List.append_assoc _ _ _⟩

/-- The position of an element among the distinct ones is that at which it is first met. -/
theorem idxOf_distinct {xs ys : List α} {x : α} (h : x ∉ xs) :
    (distinct (xs ++ x :: ys)).idxOf x = (distinct xs).length := by
  obtain ⟨rest, hrest⟩ := distinct_append (xs ++ [x]) ys
  rw [distinct_concat, if_neg h, List.append_assoc, List.append_assoc] at hrest
  rw [← List.singleton_append, hrest, List.idxOf_append, if_neg (mt mem_distinct.mp h)]
  simp

theorem toFinset_distinct (xs : List α) : (distinct xs).toFinset = xs.toFinset := by
  ext x
  rw [List.mem_toFinset, List.mem_toFinset, mem_distinct]

/-- The windows of a sequence. -/
def windowSet (n : Nat) (xs : List α) : Finset (List α) := (windows n xs).toFinset

theorem length_distinct_windows (n : Nat) (xs : List α) :
    (distinct (windows n xs)).length = (windowSet n xs).card := by
  rw [windowSet, ← toFinset_distinct, List.toFinset_card_of_nodup (nodup_distinct _)]

theorem length_shared_windows (n : Nat) (a b : List α) :
    ((distinct (windows n a)).filter (distinct (windows n b)).contains).length =
      (windowSet n a ∩ windowSet n b).card := by
  have hnodup := (nodup_distinct (windows n a)).filter (distinct (windows n b)).contains
  rw [← List.toFinset_card_of_nodup hnodup]
  congr 1
  ext w
  simp [windowSet, mem_distinct]

/-- **The overlap of two sequences** is the part that their common windows are of all their windows,
and zero without windows. -/
theorem windowOverlap_eq (n : Nat) (a b : List α) : windowOverlap n a b =
    if (windowSet n a ∪ windowSet n b).card = 0 then .zero
    else .ofNat (windowSet n a ∩ windowSet n b).card /
      .ofNat (windowSet n a ∪ windowSet n b).card := by
  have hcard := Finset.card_union_add_card_inter (windowSet n a) (windowSet n b)
  have hall : (windowSet n a).card + (windowSet n b).card - (windowSet n a ∩ windowSet n b).card =
      (windowSet n a ∪ windowSet n b).card := by omega
  unfold windowOverlap
  simp only [length_distinct_windows, length_shared_windows, hall]

theorem windowOverlap_comm (n : Nat) (a b : List α) :
    windowOverlap n a b = windowOverlap n b a := by
  rw [windowOverlap_eq, windowOverlap_eq, Finset.union_comm, Finset.inter_comm]

end Likeness.Sequence
