import Likeness.Proofs.Sequence.CommonSubsequence
import Likeness.Proofs.Sequence.EditDistance
import Likeness.Proofs.Sequence.Tiling

/-!
# Likeness.Proofs.Sequence.Bounds

How the measures of two sequences bound one another.

They are computed apart, and what ties them together are the sequences that they count. A tile lies on a
common subsequence, one without gaps, so none is longer than the longest (`Tiling.IsCommon.length_le`). What
an alignment keeps is a common subsequence, and each side has at most one other element for each edit
(`Aligned.exists_common`). The other way round, deleting all but a common subsequence and inserting the rest
of the other sequence makes the one into the other (`edits_of_common`). So an edit distance can be neither
much smaller nor much greater than what a longest common subsequence leaves out
(`max_le_editLength_add_commonLength`, `editLength_add_commonLength_le`).
-/

namespace Likeness

open scoped List

namespace Sequence

variable {α : Type} {a b c : List α} {n : Nat}

/-! ### Alignments and common subsequences -/

/-- What an alignment keeps is common to both sides, and it leaves out at most one element of each side for
each edit. -/
theorem Aligned.exists_common (h : Aligned n a b) :
    ∃ c : List α, c <+ a ∧ c <+ b ∧ a.length ≤ c.length + n ∧ b.length ≤ c.length + n := by
  -- An alignment grows at the back: an element that is kept goes there, and an edit changes nothing in `c`.
  induction h with
  | nil => exact ⟨[], .slnil, .slnil, Nat.le_refl 0, Nat.le_refl 0⟩
  | delete x _ ih =>
      obtain ⟨c, hca, hcb, ha, hb⟩ := ih
      refine ⟨c, hca.trans (List.sublist_append_left _ _), hcb, ?_, by omega⟩
      rw [List.length_append, List.length_singleton]
      omega
  | insert y _ ih =>
      obtain ⟨c, hca, hcb, ha, hb⟩ := ih
      refine ⟨c, hca, hcb.trans (List.sublist_append_left _ _), by omega, ?_⟩
      rw [List.length_append, List.length_singleton]
      omega
  | keep x _ ih =>
      obtain ⟨c, hca, hcb, ha, hb⟩ := ih
      refine ⟨c ++ [x], hca.append (.refl _), hcb.append (.refl _), ?_, ?_⟩ <;>
        simp only [List.length_append, List.length_singleton] <;> omega
  | substitute x y _ ih =>
      obtain ⟨c, hca, hcb, ha, hb⟩ := ih
      refine ⟨c, hca.trans (List.sublist_append_left _ _), hcb.trans (List.sublist_append_left _ _),
        ?_, ?_⟩ <;> rw [List.length_append, List.length_singleton] <;> omega

/-- A sequence grows out of a subsequence by insertions alone. -/
theorem Aligned.of_sublist (h : c <+ a) : ∃ n, Aligned n c a ∧ c.length + n = a.length := by
  induction h with
  | slnil => exact ⟨0, .nil, rfl⟩
  | cons x _ ih =>
      obtain ⟨n, haligned, hlength⟩ := ih
      refine ⟨1 + n, append (.insert x .nil) haligned, ?_⟩
      rw [List.length_cons]
      omega
  | cons_cons x _ ih =>
      obtain ⟨n, haligned, hlength⟩ := ih
      refine ⟨0 + n, append (.keep x .nil) haligned, ?_⟩
      rw [List.length_cons, List.length_cons]
      omega

/-- By way of a common subsequence: all else is deleted on the one side and inserted on the other. -/
theorem edits_of_common (hca : c <+ a) (hcb : c <+ b) :
    ∃ n, Edits n a b ∧ n + 2 * c.length = a.length + b.length := by
  obtain ⟨m, hdelete, hm⟩ := Aligned.of_sublist hca
  obtain ⟨n, hinsert, hn⟩ := Aligned.of_sublist hcb
  exact ⟨m + n, hdelete.symm.edits.trans hinsert.edits, by omega⟩

/-! ### The edit distance and the common length -/

variable [DecidableEq α]

theorem isLongest_commonLength (a b : List α) : IsLongest a b (commonLength a b) := by
  unfold commonLength
  split
  · exact isLongest_commonLengthWithin a b
  · exact (isLongest_commonLengthWithin b a).symm

theorem max_le_editLength_add_commonLength (a b : List α) :
    max a.length b.length ≤ editLength a b + commonLength a b := by
  obtain ⟨c, hca, hcb, ha, hb⟩ := (isCheapest_editLength a b).1.exists_common
  have hmost : c.length ≤ commonLength a b := (isLongest_commonLength a b).2 ⟨c, hca, hcb, rfl⟩
  omega

theorem editLength_add_commonLength_le (a b : List α) :
    editLength a b + 2 * commonLength a b ≤ a.length + b.length := by
  obtain ⟨c, hca, hcb, hlength⟩ := (isLongest_commonLength a b).1
  obtain ⟨n, hedits, hn⟩ := edits_of_common hca hcb
  have hleast := (isLeast_editLength a b).2 hedits
  omega

end Sequence

/-! ### Tiles and the common length -/

namespace Tiling

variable {α : Type} {a b : List α} {t : Tile}

/-- The elements under a tile, on either side. -/
theorem IsCommon.take_eq (h : IsCommon a b t) :
    (a.drop t.source).take t.length = (b.drop t.target).take t.length ∧
      ((a.drop t.source).take t.length).length = t.length := by
  -- An empty tile may lie beyond the end, but one that is not has its last element in `a`.
  have hends : t.source + t.length ≤ a.length ∨ t.length = 0 := by
    rcases Nat.eq_zero_or_pos t.length with hzero | hpos
    · exact .inr hzero
    · obtain ⟨x, hx, -⟩ := h (t.length - 1) (by omega)
      have hlt := (List.getElem?_eq_some_iff.mp hx).1
      exact .inl (by omega)
  constructor
  · refine List.ext_getElem? fun k => ?_
    rcases Nat.lt_or_ge k t.length with hk | hk
    · obtain ⟨x, ha, hb⟩ := h k hk
      rw [List.getElem?_take_of_lt hk, List.getElem?_take_of_lt hk, List.getElem?_drop,
        List.getElem?_drop, ha, hb]
    · have hbeyond (l : List α) : (l.take t.length)[k]? = none :=
        List.getElem?_eq_none ((List.length_take_le ..).trans hk)
      rw [hbeyond, hbeyond]
  · rw [List.length_take, List.length_drop]
    omega

/-- A tile is no longer than a longest common subsequence. -/
theorem IsCommon.length_le [DecidableEq α] (h : IsCommon a b t) :
    t.length ≤ Sequence.commonLength a b := by
  obtain ⟨hsame, hlength⟩ := h.take_eq
  have hsource : (a.drop t.source).take t.length <+ a :=
    (List.take_sublist _ _).trans (List.drop_sublist _ _)
  have htarget : (a.drop t.source).take t.length <+ b :=
    hsame ▸ (List.take_sublist _ _).trans (List.drop_sublist _ _)
  exact (Sequence.isLongest_commonLength a b).2 ⟨_, hsource, htarget, hlength⟩

end Tiling

end Likeness
