import Likeness.Digest.Grams
import Likeness.Proofs.Partial
import Likeness.Proofs.Sequence.Window

/-!
# Likeness.Proofs.Digest.Grams

The windows that are fingerprinted are those that are compared (`Grams.forms_agree`).

Both lists have the windows by where they start. One runs through the starts that leave room for a whole
window. The other counts the starts by a difference that could fall below zero and cuts each window out
between two bounds that could lie beyond the end; that neither happens is what `Grams.cut?_eq` says. All four
forms are made of the one list.
-/

namespace Likeness

variable {α : Type}

namespace Sequence

/-- A list has the elements of another, each of them once. -/
structure IsSetOf (set xs : List α) : Prop where
  nodup : set.Nodup
  mem_iff : ∀ x, x ∈ set ↔ x ∈ xs

theorem isSetOf_distinct [DecidableEq α] (xs : List α) : IsSetOf (distinct xs) xs :=
  ⟨nodup_distinct xs, fun _ => mem_distinct⟩

/-- The window that starts at a position, if there is room for it. -/
theorem getElem?_windows (n : Nat) (xs : List α) (i : Nat) : (windows n xs)[i]? =
    if 0 < n ∧ i + n ≤ xs.length then some ((xs.drop i).take n) else none := by
  unfold windows
  split
  next hzero => rw [if_neg (by omega), List.getElem?_nil]
  next hpos =>
    rw [List.getElem?_map]
    by_cases hroom : i + n ≤ xs.length
    · rw [if_pos ⟨by omega, hroom⟩, List.getElem?_range (by omega)]
      rfl
    · rw [if_neg fun h => hroom h.2, List.getElem?_eq_none (by rw [List.length_range]; omega)]
      rfl

end Sequence

namespace Grams

/-! ### Bounds -/

theorem slice?_of_le {xs : List α} {start n : Nat} (h : start + n ≤ xs.length) :
    slice? xs start (start + n) = some ((xs.drop start).take n) := by
  rw [slice?, if_pos ⟨Nat.le_add_right .., h⟩, Nat.add_sub_cancel_left]

/-- The difference is taken only where it is one. -/
theorem count?_eq (n : Nat) (xs : List α) :
    count? n xs = some (if n = 0 then 0 else xs.length + 1 - n) := by
  unfold count?
  split
  · rfl
  next hpos =>
    rw [difference?, if_pos (by omega), Option.map_some, Nat.sub_sub_right _ (by omega)]

/-- **Nothing is out of range.** Every window is cut out, and they are the windows of the sequence. -/
theorem cut?_eq (n : Nat) (xs : List α) : cut? n xs = some (Sequence.windows n xs) := by
  rw [cut?, count?_eq, Option.bind_eq_bind, Option.bind_some, Sequence.windows]
  split
  · rfl
  next hpos =>
    -- As many starts are counted as leave room for a whole window.
    refine List.mapM_eq_some_map fun start hstart => slice?_of_le ?_
    rw [List.mem_range] at hstart
    omega

/-! ### Forms -/

variable [DecidableEq α] [Element α]

theorem of?_eq (n : Nat) (unique hashed : Bool) (xs : List α) : of? n unique hashed xs =
    some (match unique, hashed with
      | false, false => .windows (Sequence.windows n xs)
      | true, false => .distinctWindows (Sequence.distinct (Sequence.windows n xs))
      | false, true => .hashes ((Sequence.windows n xs).map fingerprint)
      | true, true => .distinctHashes (Sequence.distinct ((Sequence.windows n xs).map fingerprint))) := by
  rw [of?, cut?_eq]
  rfl

/-- **The windows of fingerprints and of comparisons are the same.** The overlap of two sequences is the part
that the common windows are of all windows, in the sets that fingerprints are made of, and zero if there are
none. The list of these windows has at each position the one that starts there, as far as there is room for it;
the other three forms are its set, its hashes in order, and their set. -/
theorem forms_agree (n : Nat) :
    (∀ a b : List α, ∃ x y,
        of? n true false a = some (.distinctWindows x) ∧
        of? n true false b = some (.distinctWindows y) ∧
        Sequence.windowOverlap n a b =
          if x.toFinset ∪ y.toFinset = ∅ then .zero
          else .ofNat (x.toFinset ∩ y.toFinset).card / .ofNat (x.toFinset ∪ y.toFinset).card) ∧
      ∀ xs : List α, ∃ all distinctAll distinctHashes,
        (∀ i, all[i]? = if 0 < n ∧ i + n ≤ xs.length then some ((xs.drop i).take n) else none) ∧
        of? n false false xs = some (.windows all) ∧
        (of? n true false xs = some (.distinctWindows distinctAll) ∧ Sequence.IsSetOf distinctAll all) ∧
        of? n false true xs = some (.hashes (all.map fingerprint)) ∧
        of? n true true xs = some (.distinctHashes distinctHashes) ∧
        Sequence.IsSetOf distinctHashes (all.map fingerprint) := by
  constructor
  · intro a b
    refine ⟨_, _, of?_eq n true false a, of?_eq n true false b, ?_⟩
    rw [Sequence.windowOverlap_eq, Sequence.toFinset_distinct, Sequence.toFinset_distinct]
    exact if_congr Finset.card_eq_zero rfl rfl
  · intro xs
    exact ⟨Sequence.windows n xs, _, _, Sequence.getElem?_windows n xs, of?_eq n false false xs,
      ⟨of?_eq n true false xs, Sequence.isSetOf_distinct _⟩, of?_eq n false true xs, of?_eq n true true xs,
      Sequence.isSetOf_distinct _⟩

example : of? 2 true false ([4, 5, 4, 5, 4] : List UInt32) =
    some (.distinctWindows [[4, 5], [5, 4]]) := by decide

end Grams

end Likeness
