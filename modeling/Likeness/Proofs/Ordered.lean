import Likeness.Ordered

/-!
# Likeness.Proofs.Ordered

Lists that are in order already. An element that comes after all others is put at the end
(`Ordered.insert_last`), so a list in order is made again from its elements
(`Ordered.ofList_eq_self`). A list in which no two elements tie is put in order by sorting it
(`Ordered.pairwise_mergeSort`).
-/

namespace Likeness.Ordered

variable {α : Type} {before : α → α → Bool}

theorem insert_last {a : α} {as : List α}
    (h : ∀ b ∈ as, before b a = true ∧ before a b = false) : insert before a as = as ++ [a] := by
  induction as with
  | nil => rfl
  | cons b as ih =>
      obtain ⟨hba, hab⟩ := h b (by simp)
      have htail := ih fun c hc => h c (by simp [hc])
      simp [insert, hba, hab, htail]

theorem ofList_eq_self {as : List α}
    (asymm : ∀ {x y}, before x y = true → before y x = false)
    (h : as.Pairwise (before · · = true)) : ofList before as = as := by
  -- What has been put in so far is the part of the list in front of what is still to come.
  have hfold (front back : List α) (h : (front ++ back).Pairwise (before · · = true)) :
      back.foldl (fun sorted a => insert before a sorted) front = front ++ back := by
    induction back generalizing front with
    | nil => simp
    | cons a back ih =>
        have hlast : ∀ b ∈ front, before b a = true ∧ before a b = false := fun b hb =>
          have hba := (List.pairwise_append.mp h).2.2 b hb a (by simp)
          ⟨hba, asymm hba⟩
        rw [List.foldl_cons, insert_last hlast, ih _ (by simpa using h)]
        simp
  exact hfold [] as h

/-- Sorting by what does not come later puts elements in strict order if no two of them tie. -/
theorem pairwise_mergeSort {as : List α}
    (asymm : ∀ {x y}, before x y = true → before y x = false)
    (trans : ∀ {x y z}, before y x = false → before z y = false → before z x = false)
    (h : as.Pairwise fun x y => before x y = true ∨ before y x = true) :
    (as.mergeSort fun x y => !before y x).Pairwise (before · · = true) := by
  have hsorted : (as.mergeSort fun x y => !before y x).Pairwise fun x y => (!before y x) = true := by
    refine List.pairwise_mergeSort (fun x y z hxy hyz => ?_) (fun x y => ?_) as
    · rw [Bool.not_eq_true'] at *
      exact trans hxy hyz
    · cases hyx : before y x with
      | false => rfl
      | true => rw [asymm hyx]; rfl
  have hties := (List.mergeSort_perm as fun x y => !before y x).symm.pairwise h Or.symm
  refine (hsorted.and hties).imp ?_
  intro x y hxy
  refine hxy.2.resolve_right fun hyx => ?_
  have hlater := hxy.1
  rw [hyx] at hlater
  cases hlater

end Likeness.Ordered
