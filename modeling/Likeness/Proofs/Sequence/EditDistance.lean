import Mathlib.Data.List.Basic
import Mathlib.Order.Bounds.Basic
import Mathlib.Order.MinMax
import Likeness.Sequence.EditDistance

/-!
# Likeness.Proofs.Sequence.EditDistance

The edit distance is the length of a shortest script of edits (`Sequence.editDistance_isLeast`).

A script may come back to the same place as often as it likes, so nothing can be said about it by going
through one of its sequences. But two sequences can be laid side by side, element by element
(`Sequence.Aligned`), and one more edit makes an alignment dearer by one at most (`Aligned.edit`): it
replaces a single element of the second sequence, and what stood against that element can be laid against
whatever comes for it. So scripts do no better than alignments. Alignments are taken apart at their
ends, where the cheapest follows from three others, and this is how an entry of a row follows from the
three next to it. A row is filled from its front, over what an earlier row left there
(`EditRows.Filling`), and what is left is never read.
-/

namespace Likeness.Sequence

variable {α : Type}

/-! ### Scripts -/

/-- A change of one element, at a place counted from the front. -/
inductive Edit (α : Type) where
  | insert (place : Nat) (x : α)
  | delete (place : Nat)
  | substitute (place : Nat) (x : α)

namespace Edit

/-- What an edit makes of a sequence, if its place is there. -/
def makes? : Edit α → List α → Option (List α)
  | insert i x, a => if i ≤ a.length then some (a.take i ++ x :: a.drop i) else none
  | delete i, a => if i < a.length then some (a.take i ++ a.drop (i + 1)) else none
  | substitute i x, a => if i < a.length then some (a.take i ++ x :: a.drop (i + 1)) else none

/-- What a script makes of a sequence: its edits are done one after another. -/
def run? (script : List (Edit α)) (a : List α) : Option (List α) :=
  script.foldlM (fun a e => e.makes? a) a

variable {e : Edit α} {script : List (Edit α)} {a b c : List α}

/-- An edit puts at most one element into the place of at most one other. -/
theorem exists_middle (h : e.makes? a = some b) :
    ∃ before old new after, a = before ++ (old ++ after) ∧ b = before ++ (new ++ after) ∧
      old.length ≤ 1 ∧ new.length ≤ 1 := by
  cases e with
  | insert i x =>
      obtain ⟨-, h⟩ := Option.ite_none_right_eq_some.mp h
      refine ⟨a.take i, [], [x], a.drop i, ?_, (Option.some.inj h).symm, Nat.zero_le 1, le_rfl⟩
      exact (List.take_append_drop i a).symm
  | delete i =>
      obtain ⟨hi, h⟩ := Option.ite_none_right_eq_some.mp h
      refine ⟨a.take i, [a[i]], [], a.drop (i + 1), ?_, (Option.some.inj h).symm, le_rfl,
        Nat.zero_le 1⟩
      rw [List.singleton_append, ← List.drop_eq_getElem_cons hi, List.take_append_drop]
  | substitute i x =>
      obtain ⟨hi, h⟩ := Option.ite_none_right_eq_some.mp h
      refine ⟨a.take i, [a[i]], [x], a.drop (i + 1), ?_, (Option.some.inj h).symm, le_rfl, le_rfl⟩
      rw [List.singleton_append, ← List.drop_eq_getElem_cons hi, List.take_append_drop]

/-- What follows behind a sequence does not get in the way of an edit. -/
theorem makes?_append (h : e.makes? a = some b) (c : List α) : e.makes? (a ++ c) = some (b ++ c) := by
  cases e with
  | insert i x =>
      obtain ⟨hi, h⟩ := Option.ite_none_right_eq_some.mp h
      obtain rfl := Option.some.inj h
      rw [makes?, if_pos (by rw [List.length_append]; omega), List.take_append_of_le_length hi,
        List.drop_append_of_le_length hi, List.append_assoc, List.cons_append]
  | delete i =>
      obtain ⟨hi, h⟩ := Option.ite_none_right_eq_some.mp h
      obtain rfl := Option.some.inj h
      rw [makes?, if_pos (by rw [List.length_append]; omega), List.take_append_of_le_length hi.le,
        List.drop_append_of_le_length hi, List.append_assoc]
  | substitute i x =>
      obtain ⟨hi, h⟩ := Option.ite_none_right_eq_some.mp h
      obtain rfl := Option.some.inj h
      rw [makes?, if_pos (by rw [List.length_append]; omega), List.take_append_of_le_length hi.le,
        List.drop_append_of_le_length hi, List.append_assoc, List.cons_append]

theorem run?_cons (e : Edit α) (script : List (Edit α)) (a : List α) :
    run? (e :: script) a = (e.makes? a).bind (run? script) := List.foldlM_cons ..

theorem run?_append (h : run? script a = some b) (c : List α) : run? script (a ++ c) = some (b ++ c) := by
  induction script generalizing a with
  | nil =>
      obtain rfl := Option.some.inj h
      rfl
  | cons e script ih =>
      rw [run?_cons] at h
      obtain ⟨a', he, hscript⟩ := Option.bind_eq_some_iff.mp h
      rw [run?_cons, makes?_append he]
      exact ih hscript

end Edit

/-- Some script of `n` edits turns one sequence into another. -/
def Edits (n : Nat) (a b : List α) : Prop :=
  ∃ script : List (Edit α), Edit.run? script a = some b ∧ script.length = n

variable {a b c d : List α} {x y : α} {m n : Nat}

theorem Edits.trans (h : Edits m a b) (h' : Edits n b c) : Edits (m + n) a c := by
  obtain ⟨first, hfirst, rfl⟩ := h
  obtain ⟨second, hsecond, rfl⟩ := h'
  refine ⟨first ++ second, ?_, List.length_append⟩
  rw [Edit.run?, List.foldlM_append]
  exact Option.bind_eq_some_iff.mpr ⟨b, hfirst, hsecond⟩

theorem Edits.append (h : Edits n a b) (c : List α) : Edits n (a ++ c) (b ++ c) := by
  obtain ⟨script, hrun, hlength⟩ := h
  exact ⟨script, Edit.run?_append hrun c, hlength⟩

/-- One more edit behind a script. -/
theorem Edits.concat (h : Edits n a b) {e : Edit α} (he : e.makes? b = some c) : Edits (n + 1) a c := by
  refine h.trans ⟨[e], ?_, rfl⟩
  rw [Edit.run?_cons, he]
  rfl

/-! ### Alignments -/

/-- Two sequences laid side by side, from their fronts on: an element stands against none, against an
equal one, or against any other, and each but the second costs one. -/
inductive Aligned : Nat → List α → List α → Prop
  | nil : Aligned 0 [] []
  | delete {n : Nat} {a b : List α} (x : α) (front : Aligned n a b) : Aligned (n + 1) (a ++ [x]) b
  | insert {n : Nat} {a b : List α} (y : α) (front : Aligned n a b) : Aligned (n + 1) a (b ++ [y])
  | keep {n : Nat} {a b : List α} (x : α) (front : Aligned n a b) : Aligned n (a ++ [x]) (b ++ [x])
  | substitute {n : Nat} {a b : List α} (x y : α) (front : Aligned n a b) :
      Aligned (n + 1) (a ++ [x]) (b ++ [y])

namespace Aligned

/-- An alignment is a script that works from the front to the end. -/
theorem edits (h : Aligned n a b) : Edits n a b := by
  induction h with
  | nil => exact ⟨[], rfl, rfl⟩
  | @delete n a b x _ ih =>
      refine (ih.append [x]).concat (e := .delete b.length) ?_
      simp [Edit.makes?]
  | @insert n a b y _ ih =>
      refine ih.concat (e := .insert b.length y) ?_
      simp [Edit.makes?]
  | keep x _ ih => exact ih.append [x]
  | @substitute n a b x y _ ih =>
      refine (ih.append [x]).concat (e := .substitute b.length y) ?_
      simp [Edit.makes?]

theorem symm (h : Aligned n a b) : Aligned n b a := by
  induction h with
  | nil => exact .nil
  | delete x _ ih => exact .insert x ih
  | insert y _ ih => exact .delete y ih
  | keep x _ ih => exact .keep x ih
  | substitute x y _ ih => exact .substitute y x ih

theorem length_le (h : Aligned n a b) : a.length ≤ b.length + n := by
  induction h with
  | nil => exact Nat.le_refl 0
  | _ => simp only [List.length_append, List.length_singleton]; omega

/-- Two alignments, one behind the other. -/
theorem append (h : Aligned m a b) (h' : Aligned n c d) : Aligned (m + n) (a ++ c) (b ++ d) := by
  induction h' with
  | nil =>
      rw [List.append_nil, List.append_nil]
      exact h
  | delete x _ ih =>
      rw [← List.append_assoc]
      exact .delete x ih
  | insert y _ ih =>
      rw [← List.append_assoc]
      exact .insert y ih
  | keep x _ ih =>
      rw [← List.append_assoc, ← List.append_assoc]
      exact .keep x ih
  | substitute x y _ ih =>
      rw [← List.append_assoc, ← List.append_assoc]
      exact .substitute x y ih

protected theorem refl (a : List α) : Aligned 0 a a := by
  induction a with
  | nil => exact .nil
  | cons x a ih => exact append (.keep x .nil) ih

/-- Element against element, and the rest of the longer sequence against nothing. -/
theorem of_lengths (a b : List α) : Aligned (max a.length b.length) a b := by
  induction a generalizing b with
  | nil =>
      rw [List.length_nil, Nat.zero_max]
      induction b with
      | nil => exact .nil
      | cons y b ih =>
          rw [List.length_cons, Nat.add_comm]
          exact append (.insert y .nil) ih
  | cons x a ih =>
      cases b with
      | nil =>
          have hrest := ih []
          rw [List.length_nil, Nat.max_zero] at hrest
          rw [List.length_nil, Nat.max_zero, List.length_cons, Nat.add_comm]
          exact append (.delete x .nil) hrest
      | cons y b =>
          rw [List.length_cons, List.length_cons, Nat.add_max_add_right, Nat.add_comm]
          exact append (.substitute x y .nil) (ih b)

/-- Where a sequence with a last element is cut: behind that element, or before it. -/
theorem append_eq_concat {t : List α} (h : b ++ c = t ++ [y]) :
    (c = [] ∧ b = t ++ [y]) ∨ ∃ d, c = d ++ [y] ∧ b ++ d = t := by
  rcases List.eq_nil_or_concat' c with rfl | ⟨d, z, rfl⟩
  · exact .inl ⟨rfl, by rwa [List.append_nil] at h⟩
  · rw [← List.append_assoc] at h
    obtain ⟨hrest, hlast⟩ := List.append_inj' h rfl
    exact .inr ⟨d, by rw [hlast], hrest⟩

/-- An alignment is cut where its second sequence is cut. -/
theorem split (h : Aligned n a (b ++ c)) : ∃ k m front back, a = front ++ back ∧ k + m = n ∧
    Aligned k front b ∧ Aligned m back c := by
  generalize htarget : b ++ c = t at h
  induction h generalizing c with
  | nil =>
      obtain ⟨rfl, rfl⟩ := List.append_eq_nil_iff.mp htarget
      exact ⟨0, 0, [], [], rfl, rfl, .nil, .nil⟩
  | delete x _ ih =>
      obtain ⟨k, m, front, back, rfl, rfl, hfront, hback⟩ := ih htarget
      exact ⟨k, m + 1, front, back ++ [x], List.append_assoc .., rfl, hfront, hback.delete x⟩
  | @insert n a t y h ih =>
      rcases append_eq_concat htarget with ⟨rfl, rfl⟩ | ⟨c, rfl, hrest⟩
      · exact ⟨n + 1, 0, a, [], (List.append_nil a).symm, rfl, h.insert y, .nil⟩
      · obtain ⟨k, m, front, back, rfl, rfl, hfront, hback⟩ := ih hrest
        exact ⟨k, m + 1, front, back, rfl, rfl, hfront, hback.insert y⟩
  | @keep n a t x h ih =>
      rcases append_eq_concat htarget with ⟨rfl, rfl⟩ | ⟨c, rfl, hrest⟩
      · exact ⟨n, 0, a ++ [x], [], (List.append_nil _).symm, rfl, h.keep x, .nil⟩
      · obtain ⟨k, m, front, back, rfl, rfl, hfront, hback⟩ := ih hrest
        exact ⟨k, m, front, back ++ [x], List.append_assoc .., rfl, hfront, hback.keep x⟩
  | @substitute n a t x y h ih =>
      rcases append_eq_concat htarget with ⟨rfl, rfl⟩ | ⟨c, rfl, hrest⟩
      · exact ⟨n + 1, 0, a ++ [x], [], (List.append_nil _).symm, rfl, h.substitute x y, .nil⟩
      · obtain ⟨k, m, front, back, rfl, rfl, hfront, hback⟩ := ih hrest
        exact ⟨k, m + 1, front, back ++ [x], List.append_assoc .., rfl, hfront, hback.substitute x y⟩

/-- **One more edit** makes an alignment dearer by one at most. -/
theorem edit (h : Aligned n a b) {e : Edit α} (he : e.makes? b = some c) :
    ∃ m ≤ n + 1, Aligned m a c := by
  obtain ⟨before, old, new, after, rfl, rfl, hold, hnew⟩ := Edit.exists_middle he
  obtain ⟨i, _, front, _, rfl, rfl, hfront, hrest⟩ := h.split
  obtain ⟨j, k, middle, back, rfl, rfl, hmiddle, hback⟩ := hrest.split
  -- What stood against the old element is laid against the new one.
  have hlength := hmiddle.length_le
  refine ⟨i + (max middle.length new.length + k), by omega, ?_⟩
  exact hfront.append ((of_lengths middle new).append hback)

/-- **A whole script** makes an alignment dearer by its length at most. -/
theorem edits_le (h : Aligned n a b) {script : List (Edit α)} (hrun : Edit.run? script b = some c) :
    ∃ m ≤ n + script.length, Aligned m a c := by
  induction script generalizing n b with
  | nil =>
      obtain rfl := Option.some.inj hrun
      exact ⟨n, Nat.le_refl n, h⟩
  | cons e script ih =>
      rw [Edit.run?_cons] at hrun
      obtain ⟨b', he, hscript⟩ := Option.bind_eq_some_iff.mp hrun
      obtain ⟨m, hm, hedited⟩ := h.edit he
      obtain ⟨k, hk, hdone⟩ := ih hedited hscript
      refine ⟨k, ?_, hdone⟩
      rw [List.length_cons]
      omega

/-- What an alignment of two sequences that have grown at their ends does with the new elements. -/
theorem concat_cases (h : Aligned n (a ++ [x]) (b ++ [y])) :
    (∃ k, n = k + 1 ∧ Aligned k a (b ++ [y])) ∨ (∃ k, n = k + 1 ∧ Aligned k (a ++ [x]) b) ∨
      (x = y ∧ Aligned n a b) ∨ ∃ k, n = k + 1 ∧ Aligned k a b := by
  generalize hsource : a ++ [x] = s at h
  generalize htarget : b ++ [y] = t at h
  cases h with
  | nil => simp at hsource
  | delete _ front =>
      obtain ⟨rfl, -⟩ := List.append_inj' hsource rfl
      exact .inl ⟨_, rfl, front⟩
  | insert _ front =>
      obtain ⟨rfl, -⟩ := List.append_inj' htarget rfl
      exact .inr (.inl ⟨_, rfl, front⟩)
  | keep z front =>
      obtain ⟨rfl, hx⟩ := List.append_inj' hsource rfl
      obtain ⟨rfl, hy⟩ := List.append_inj' htarget rfl
      exact .inr (.inr (.inl ⟨List.singleton_inj.mp (hx.trans hy.symm), front⟩))
  | substitute _ _ front =>
      obtain ⟨rfl, -⟩ := List.append_inj' hsource rfl
      obtain ⟨rfl, -⟩ := List.append_inj' htarget rfl
      exact .inr (.inr (.inr ⟨_, rfl, front⟩))

end Aligned

/-! ### Cheapest alignments -/

/-- The least cost of an alignment. -/
def IsCheapest (a b : List α) (n : Nat) : Prop := IsLeast {n | Aligned n a b} n

theorem isCheapest_nil_left (b : List α) : IsCheapest [] b b.length := by
  refine ⟨?_, fun n h => ?_⟩
  · have haligned := Aligned.of_lengths [] b
    rwa [List.length_nil, Nat.zero_max] at haligned
  · have hlength := h.symm.length_le
    rwa [List.length_nil, Nat.zero_add] at hlength

theorem IsCheapest.symm (h : IsCheapest a b n) : IsCheapest b a n :=
  ⟨h.1.symm, fun _ h' => h.2 h'.symm⟩

theorem isCheapest_nil_right (a : List α) : IsCheapest a [] a.length := (isCheapest_nil_left a).symm

/-- Both sequences grow at their ends: the cheapest alignment follows from the three in which one of the
new elements is missing, or both are. -/
theorem IsCheapest.concat [DecidableEq α] {corner up left : Nat} (hcorner : IsCheapest a b corner)
    (hup : IsCheapest a (b ++ [y]) up) (hleft : IsCheapest (a ++ [x]) b left) :
    IsCheapest (a ++ [x]) (b ++ [y])
      (min (min (corner + if x = y then 0 else 1) (up + 1)) (left + 1)) := by
  have hdiagonal : Aligned (corner + if x = y then 0 else 1) (a ++ [x]) (b ++ [y]) := by
    split
    next heq => exact heq ▸ hcorner.1.keep x
    next => exact hcorner.1.substitute x y
  constructor
  · rcases min_choice (min (corner + if x = y then 0 else 1) (up + 1)) (left + 1) with hmin | hmin
    · rw [hmin]
      rcases min_choice (corner + if x = y then 0 else 1) (up + 1) with hmin | hmin
      · rw [hmin]
        exact hdiagonal
      · rw [hmin]
        exact hup.1.delete x
    · rw [hmin]
      exact hleft.1.insert y
  · intro n h
    rcases Aligned.concat_cases h with ⟨k, rfl, hrest⟩ | ⟨k, rfl, hrest⟩ | ⟨heq, hrest⟩ | ⟨k, rfl, hrest⟩
    · have hle := hup.2 hrest
      omega
    · have hle := hleft.2 hrest
      omega
    · have hle := hcorner.2 hrest
      rw [if_pos heq]
      omega
    · have hle := hcorner.2 hrest
      split <;> omega

/-! ### Rows -/

/-- A row has the least cost of an alignment for each prefix of the target of at most `upTo` elements. -/
def IsEditRow (source target : List α) (upTo : Nat) (row : Array Nat) : Prop :=
  ∀ j ≤ upTo, IsCheapest source (target.take j) (row.getD j 0)

/-- One more entry of a row. -/
theorem IsEditRow.setIfInBounds {source target : List α} {row : Array Nat} {entry : Nat}
    (h : ∀ j < n, IsCheapest source (target.take j) (row.getD j 0)) (hsize : n < row.size)
    (hentry : IsCheapest source (target.take n) entry) :
    IsEditRow source target n (row.setIfInBounds n entry) := by
  intro j hj
  rw [Array.getD_eq_getD_getElem?]
  rcases Nat.lt_or_eq_of_le hj with hlt | rfl
  · rw [Array.getElem?_setIfInBounds_ne (Nat.ne_of_gt hlt), ← Array.getD_eq_getD_getElem?]
    exact h j hlt
  · rw [Array.getElem?_setIfInBounds_self_of_lt hsize]
    exact hentry

namespace EditRows

variable {source target : List α} {rows : EditRows}

/-- Rows for a target of `n` elements. -/
structure Sized (n : Nat) (rows : EditRows) : Prop where
  previous : rows.previous.size = n + 1
  current : rows.current.size = n + 1

/-- What the rows hold after some source elements. Of the row that is overwritten next nothing is known. -/
structure Holds (source target : List α) (rows : EditRows) : Prop where
  sized : rows.Sized target.length
  previous : IsEditRow source target target.length rows.previous

/-- What they hold while the next row is filled for the source element `x`: its entries for the prefixes
of at most `upTo` elements are there, and behind them is what was left of an earlier row. -/
structure Filling (source : List α) (x : α) (target : List α) (upTo : Nat) (rows : EditRows) :
    Prop where
  sized : rows.Sized target.length
  previous : IsEditRow source target target.length rows.previous
  current : IsEditRow (source ++ [x]) target upTo rows.current

theorem holds_initial (target : List α) : (initial target.length).Holds [] target := by
  refine ⟨⟨Array.size_range, Array.size_replicate⟩, fun j hj => ?_⟩
  have hentry : (initial target.length).previous.getD j 0 = (target.take j).length := by
    rw [initial, Array.getD_eq_getD_getElem?, Array.getElem?_range, if_pos (Nat.lt_succ_of_le hj),
      List.length_take_of_le hj]
    rfl
  rw [hentry]
  exact isCheapest_nil_left _

/-- The entry of the empty prefix: all source elements so far are deleted. -/
theorem Holds.head (h : rows.Holds source target) (x : α) :
    (rows.head source.length).Filling source x target 0 := by
  refine ⟨⟨h.sized.previous, Array.size_setIfInBounds.trans h.sized.current⟩, h.previous, ?_⟩
  refine .setIfInBounds (fun j hj => absurd hj j.not_lt_zero) ?_ ?_
  · rw [h.sized.current]
    exact Nat.succ_pos _
  · have hdeleted := isCheapest_nil_right (source ++ [x])
    rwa [List.length_append] at hdeleted

/-- The rows are swapped when the next one has all its entries. -/
theorem Filling.swap (h : rows.Filling source x target target.length) :
    rows.swap.Holds (source ++ [x]) target :=
  ⟨⟨h.sized.current, h.sized.previous⟩, h.current⟩

variable [DecidableEq α]

/-- **One more entry** follows from the three next to it. -/
theorem Filling.put (h : rows.Filling source x target n) (hy : target[n]? = some y) :
    (rows.put x y n).Filling source x target (n + 1) := by
  obtain ⟨hlt, -⟩ := List.getElem?_eq_some_iff.mp hy
  have htake : target.take (n + 1) = target.take n ++ [y] := by rw [List.take_add_one, hy]; rfl
  have hcorner := h.previous n hlt.le
  have hup := h.previous (n + 1) hlt
  have hleft := h.current n n.le_refl
  refine ⟨⟨h.sized.previous, Array.size_setIfInBounds.trans h.sized.current⟩, h.previous, ?_⟩
  refine .setIfInBounds (fun j hj => h.current j (Nat.le_of_lt_succ hj)) ?_ ?_
  · rw [h.sized.current]
    exact Nat.succ_lt_succ hlt
  · rw [htake] at hup ⊢
    exact hcorner.concat hup hleft

/-- **One more source element** fills the next row. -/
theorem Filling.fill (done : List α) {todo : List α}
    (h : rows.Filling source x (done ++ todo) done.length) :
    (rows.fill x todo done.length).Filling source x (done ++ todo) (done ++ todo).length := by
  -- By induction on the target elements that are still to come.
  induction todo generalizing done rows with
  | nil => rwa [List.append_nil] at h ⊢
  | cons y todo ih =>
      have hy : (done ++ y :: todo)[done.length]? = some y := by simp
      have hlength : (done ++ [y]).length = done.length + 1 := List.length_append
      have hnext := h.put hy
      rw [List.append_cons, ← hlength] at hnext
      have hrest := ih (done ++ [y]) hnext
      rw [hlength, ← List.append_cons] at hrest
      exact hrest

/-- **All source elements**, one after the other. -/
theorem Holds.run {before : List α} (h : rows.Holds before target) (later : List α) :
    (rows.run target later before.length).Holds (before ++ later) target := by
  induction later generalizing before rows with
  | nil => rwa [List.append_nil]
  | cons x later ih =>
      have hfilled : ((rows.head before.length).fill x target 0).Filling before x target
          target.length := Filling.fill [] (h.head x)
      have hlater := ih hfilled.swap
      rw [List.length_append, ← List.append_cons] at hlater
      exact hlater

end EditRows

/-! ### The edit distance -/

variable [DecidableEq α]

theorem isCheapest_editLength (a b : List α) : IsCheapest a b (editLength a b) := by
  have hlast := ((EditRows.holds_initial b).run a).previous b.length (Nat.le_refl _)
  rwa [List.take_length] at hlast

theorem isLeast_editLength (a b : List α) : IsLeast {n | Edits n a b} (editLength a b) := by
  obtain ⟨haligned, hcheapest⟩ := isCheapest_editLength a b
  refine ⟨haligned.edits, ?_⟩
  rintro n ⟨script, hrun, rfl⟩
  obtain ⟨m, hm, haligned⟩ := (Aligned.refl a).edits_le hrun
  have hle := hcheapest haligned
  omega

theorem distance_editDistance (a b : List α) : (editDistance a b).distance = editLength a b := by
  unfold editDistance
  dsimp only
  split
  next hempty =>
    obtain ⟨ha, hb⟩ : a.length = 0 ∧ b.length = 0 := by omega
    rw [List.length_eq_zero_iff.mp ha, List.length_eq_zero_iff.mp hb]
    rfl
  next => rfl

/-- **The edit distance is the length of a shortest script**: some script of that length turns the first
sequence into the second, and none is shorter. So it is a distance: it is the same both ways, zero just for
equal sequences, and no longer than the way through a third sequence. It is never more than the length of
the longer sequence. -/
theorem editDistance_isLeast (a b : List α) :
    (∃ script, Edit.run? script a = some b ∧ script.length = (editDistance a b).distance) ∧
      (∀ script, Edit.run? script a = some b → (editDistance a b).distance ≤ script.length) ∧
      (editDistance b a).distance = (editDistance a b).distance ∧
      ((editDistance a b).distance = 0 ↔ a = b) ∧
      (∀ c, (editDistance a c).distance ≤ (editDistance a b).distance + (editDistance b c).distance) ∧
      (editDistance a b).distance ≤ max a.length b.length := by
  simp only [distance_editDistance]
  obtain ⟨hedits, hleast⟩ := isLeast_editLength a b
  refine ⟨hedits, fun script hrun => hleast ⟨script, hrun, rfl⟩, ?_, ?_, fun c => ?_, ?_⟩
  · exact (isCheapest_editLength b a).unique (isCheapest_editLength a b).symm
  · constructor
    · intro hzero
      obtain ⟨script, hrun, hlength⟩ := hedits
      rw [hzero, List.length_eq_zero_iff] at hlength
      subst hlength
      exact Option.some.inj hrun
    · rintro rfl
      exact Nat.le_zero.mp (hleast ⟨[], rfl, rfl⟩)
  · obtain ⟨hbehind, -⟩ := isLeast_editLength b c
    exact (isLeast_editLength a c).2 (hedits.trans hbehind)
  · exact (isCheapest_editLength a b).2 (.of_lengths a b)

example : editLength [1, 2, 3, 4, 5] [1, 1, 3, 3, 5, 6] = 3 := by decide

end Likeness.Sequence
