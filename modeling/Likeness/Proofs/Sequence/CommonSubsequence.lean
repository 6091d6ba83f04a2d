import Mathlib.Order.Bounds.Basic
import Likeness.Sequence.CommonSubsequence

/-!
# Likeness.Proofs.Sequence.CommonSubsequence

The common length of two sequences is that of a longest common subsequence
(`Sequence.commonLength_isGreatest`).

The row after some outer elements has, for each prefix of the inner sequence, the greatest length of a
common subsequence of that prefix and these outer elements (`Sequence.IsRow`). A common subsequence of
two sequences that grow at their ends either takes both new elements, which are equal then, or leaves one
of them out. That is how an entry of a row follows from the three next to it. The row is filled from its
front, over what an earlier row left there (`CommonRows.Filling`), and what is left is never read.
-/

namespace Likeness.Sequence

open scoped List

variable {α : Type} {a b c : List α} {x y : α} {m n : Nat}

/-! ### Common subsequences -/

/-- The lengths of the common subsequences of two sequences. -/
def commonLengths (a b : List α) : Set Nat := {n | ∃ c : List α, c <+ a ∧ c <+ b ∧ c.length = n}

/-- The greatest length of a common subsequence. -/
def IsLongest (a b : List α) (n : Nat) : Prop := IsGreatest (commonLengths a b) n

theorem commonLengths_comm (a b : List α) : commonLengths a b = commonLengths b a := by
  ext n
  constructor <;> rintro ⟨c, hc, hc', hlength⟩ <;> exact ⟨c, hc', hc, hlength⟩

theorem IsLongest.symm (h : IsLongest a b n) : IsLongest b a n := by
  rwa [IsLongest, commonLengths_comm]

theorem isLongest_nil_left (b : List α) : IsLongest [] b 0 := by
  refine ⟨⟨[], .slnil, List.nil_sublist b, rfl⟩, ?_⟩
  rintro n ⟨c, hc, -, rfl⟩
  rw [List.sublist_nil.mp hc, List.length_nil]

theorem isLongest_nil_right (a : List α) : IsLongest a [] 0 := (isLongest_nil_left a).symm

/-- A subsequence of a sequence that has grown at its end takes the new element or leaves it out. -/
theorem sublist_concat (h : c <+ a ++ [x]) : c <+ a ∨ ∃ d, c = d ++ [x] ∧ d <+ a := by
  obtain ⟨d, e, rfl, hd, he⟩ := List.sublist_append_iff.mp h
  rcases List.sublist_cons_iff.mp he with he | ⟨r, rfl, hr⟩
  · rw [List.sublist_nil.mp he, List.append_nil]
    exact .inl hd
  · rw [List.sublist_nil.mp hr]
    exact .inr ⟨d, rfl, hd⟩

/-- Both sequences grow by the same element: it can always be taken. -/
theorem IsLongest.concat (h : IsLongest a b n) (x : α) : IsLongest (a ++ [x]) (b ++ [x]) (n + 1) := by
  obtain ⟨⟨c, hca, hcb, hlength⟩, hmost⟩ := h
  refine ⟨⟨c ++ [x], hca.append (.refl _), hcb.append (.refl _), by simp [hlength]⟩, ?_⟩
  rintro k ⟨d, hda, hdb, rfl⟩
  -- Without its last element, which may be the new one, what is left is common to both.
  have hrest : d.dropLast <+ a ∧ d.dropLast <+ b := by
    have hdrop {e : List α} (hde : d <+ e ++ [x]) : d.dropLast <+ e := by
      rcases sublist_concat hde with hde | ⟨f, rfl, hf⟩
      · exact (List.dropLast_sublist d).trans hde
      · rwa [List.dropLast_concat]
    exact ⟨hdrop hda, hdrop hdb⟩
  have hle : d.dropLast.length ≤ n := hmost ⟨_, hrest.1, hrest.2, rfl⟩
  rw [List.length_dropLast] at hle
  omega

/-- The sequences grow by different elements: one of them is left out. -/
theorem IsLongest.concat_of_ne (hne : x ≠ y) (hleft : IsLongest a (b ++ [y]) m)
    (hright : IsLongest (a ++ [x]) b n) : IsLongest (a ++ [x]) (b ++ [y]) (max m n) := by
  obtain ⟨⟨c, hca, hcb, hclength⟩, hmostLeft⟩ := hleft
  obtain ⟨⟨d, hda, hdb, hdlength⟩, hmostRight⟩ := hright
  constructor
  · rcases Nat.le_total n m with hle | hle
    · rw [max_eq_left hle]
      exact ⟨c, hca.trans (List.sublist_append_left a [x]), hcb, hclength⟩
    · rw [max_eq_right hle]
      exact ⟨d, hda, hdb.trans (List.sublist_append_left b [y]), hdlength⟩
  · rintro k ⟨e, hea, heb, rfl⟩
    rcases sublist_concat hea with hea' | ⟨f, rfl, -⟩
    · exact (hmostLeft ⟨e, hea', heb, rfl⟩).trans (le_max_left m n)
    · rcases sublist_concat heb with heb' | ⟨g, heq, -⟩
      · exact (hmostRight ⟨_, hea, heb', rfl⟩).trans (le_max_right m n)
      · exact absurd (List.append_inj_right' heq rfl) (by simpa using hne)

/-! ### Rows -/

/-- A row has the greatest length of a common subsequence for each prefix of the inner sequence of at most
`upTo` elements. -/
def IsRow (outer inner : List α) (upTo : Nat) (row : Array Nat) : Prop :=
  ∀ j ≤ upTo, IsLongest outer (inner.take j) (row.getD j 0)

theorem IsRow.empty {outer inner : List α} {row : Array Nat} (h : IsRow outer inner n row) :
    row.getD 0 0 = 0 :=
  (h 0 n.zero_le).unique (isLongest_nil_right outer)

/-- One more entry of a row. -/
theorem IsRow.setIfInBounds {outer inner : List α} {row : Array Nat} {entry : Nat}
    (h : IsRow outer inner n row) (hsize : n + 1 < row.size)
    (hentry : IsLongest outer (inner.take (n + 1)) entry) :
    IsRow outer inner (n + 1) (row.setIfInBounds (n + 1) entry) := by
  intro j hj
  rw [Array.getD_eq_getD_getElem?]
  rcases Nat.lt_or_eq_of_le hj with hlt | rfl
  · rw [Array.getElem?_setIfInBounds_ne (Nat.ne_of_gt hlt), ← Array.getD_eq_getD_getElem?]
    exact h j (Nat.le_of_lt_succ hlt)
  · rw [Array.getElem?_setIfInBounds_self_of_lt hsize]
    exact hentry

namespace CommonRows

variable {outer inner : List α} {rows : CommonRows}

/-- Rows for an inner sequence of `n` elements. -/
structure Sized (n : Nat) (rows : CommonRows) : Prop where
  previous : rows.previous.size = n + 1
  current : rows.current.size = n + 1

/-- What the rows hold after some outer elements. Of the row that is overwritten next nothing is known but
the entry of the empty prefix, which no row overwrites. -/
structure Holds (outer inner : List α) (rows : CommonRows) : Prop where
  sized : rows.Sized inner.length
  previous : IsRow outer inner inner.length rows.previous
  empty : rows.current.getD 0 0 = 0

/-- What they hold while the next row is filled for the outer element `x`: its entries for the prefixes of
at most `upTo` elements are there, and behind them is what was left of an earlier row. -/
structure Filling (outer : List α) (x : α) (inner : List α) (upTo : Nat) (rows : CommonRows) : Prop where
  sized : rows.Sized inner.length
  previous : IsRow outer inner inner.length rows.previous
  current : IsRow (outer ++ [x]) inner upTo rows.current

theorem holds_blank (inner : List α) : (blank inner.length).Holds [] inner := by
  have hentry (j : Nat) : (Array.replicate (inner.length + 1) 0).getD j 0 = 0 := by
    rw [Array.getD_eq_getD_getElem?, Array.getElem?_replicate]
    split <;> rfl
  refine ⟨⟨Array.size_replicate, Array.size_replicate⟩, fun j _ => ?_, hentry 0⟩
  rw [blank, hentry]
  exact isLongest_nil_left _

theorem Holds.filling (h : rows.Holds outer inner) (x : α) : rows.Filling outer x inner 0 := by
  refine ⟨h.sized, h.previous, fun j hj => ?_⟩
  rw [Nat.le_zero.mp hj, h.empty]
  exact isLongest_nil_right _

/-- The rows are swapped when the next one has all its entries. -/
theorem Filling.swap (h : rows.Filling outer x inner inner.length) :
    rows.swap.Holds (outer ++ [x]) inner :=
  ⟨⟨h.sized.current, h.sized.previous⟩, h.current, h.previous.empty⟩

variable [DecidableEq α]

/-- **One more entry** follows from the three next to it. -/
theorem Filling.put (h : rows.Filling outer x inner n) (hy : inner[n]? = some y) :
    (rows.put x y n).Filling outer x inner (n + 1) := by
  obtain ⟨hlt, -⟩ := List.getElem?_eq_some_iff.mp hy
  have htake : inner.take (n + 1) = inner.take n ++ [y] := by rw [List.take_add_one, hy]; rfl
  have hcorner := h.previous n hlt.le
  have hup := h.previous (n + 1) hlt
  have hleft := h.current n n.le_refl
  refine ⟨⟨h.sized.previous, Array.size_setIfInBounds.trans h.sized.current⟩, h.previous, ?_⟩
  refine h.current.setIfInBounds (h.sized.current ▸ Nat.succ_lt_succ hlt) ?_
  rw [htake] at hup ⊢
  split
  next heq =>
    subst heq
    exact hcorner.concat x
  next hne => exact .concat_of_ne hne hup hleft

/-- **One more outer element** fills the next row. -/
theorem Filling.fill (done : List α) {todo : List α}
    (h : rows.Filling outer x (done ++ todo) done.length) :
    (rows.fill x todo done.length).Filling outer x (done ++ todo) (done ++ todo).length := by
  -- By induction on the inner elements that are still to come.
  induction todo generalizing done rows with
  | nil => rwa [List.append_nil] at h ⊢
  | cons y todo ih =>
      have hy : (done ++ y :: todo)[done.length]? = some y := by simp
      have hlength : (done ++ [y]).length = done.length + 1 := List.length_append
      have hnext := h.put hy
      rw [List.append_cons, ← hlength] at hnext
      have hrest := ih (done ++ [y]) hnext
      rw [hlength, ← List.append_cons] at hrest
      exact hrest

/-- **All outer elements**, one after the other. -/
theorem Holds.run {before : List α} (h : rows.Holds before inner) (later : List α) :
    (later.foldl (fun rows x => (rows.fill x inner 0).swap) rows).Holds (before ++ later) inner := by
  induction later generalizing before rows with
  | nil => rwa [List.append_nil]
  | cons x later ih =>
      have hfilled : (rows.fill x inner 0).Filling before x inner inner.length :=
        Filling.fill [] (h.filling x)
      rw [List.append_cons]
      exact ih hfilled.swap

end CommonRows

/-! ### The common length -/

variable [DecidableEq α]

theorem isLongest_commonLengthWithin (outer inner : List α) :
    IsLongest outer inner (commonLengthWithin outer inner) := by
  unfold commonLengthWithin
  split
  next hempty =>
    rw [List.isEmpty_iff.mp hempty]
    exact isLongest_nil_right outer
  next =>
    have hlast := ((CommonRows.holds_blank inner).run outer).previous inner.length (Nat.le_refl _)
    rwa [List.take_length] at hlast

/-- **The common length is that of a longest common subsequence**: some common subsequence has that
length and none is longer. It is the same with either sequence outside. -/
theorem commonLength_isGreatest (a b : List α) :
    (∃ c : List α, c <+ a ∧ c <+ b ∧ c.length = commonLength a b) ∧
      (∀ c : List α, c <+ a → c <+ b → c.length ≤ commonLength a b) ∧
      commonLengthWithin a b = commonLength a b ∧ commonLengthWithin b a = commonLength a b := by
  have houter := isLongest_commonLengthWithin a b
  have hinner := (isLongest_commonLengthWithin b a).symm
  have hsame : commonLengthWithin a b = commonLengthWithin b a := houter.unique hinner
  have heq : commonLength a b = commonLengthWithin a b := by
    rw [commonLength, ← hsame, ite_self]
  rw [heq]
  exact ⟨houter.1, fun c hca hcb => houter.2 ⟨c, hca, hcb, rfl⟩, rfl, hsame.symm⟩

example : commonLength [1, 2, 3, 4, 1] [3, 4, 1, 2, 1, 3] = 3 := by decide

end Likeness.Sequence
