import Mathlib.Algebra.BigOperators.Finprod
import Mathlib.Algebra.BigOperators.Group.Finset.Basic
import Mathlib.Algebra.Order.BigOperators.Group.Finset
import Mathlib.Data.List.Nodup
import Likeness.Compare.Quick
import Likeness.Proofs.Number.Rounding

/-!
# Likeness.Proofs.Compare.Counts

What counts have in common, as sums over all labels.

The two sums of the comparison are gathered in two passes, over the entries of the one side and over
the entries that only the other side has, and every addition is checked. They come to the sums of the
smaller and of the larger counts over the labels of both sides, in whichever order these are given
(`Counts.overlap_eq`). The larger sum is never behind the smaller one, so it alone decides whether
some addition fails. Labels that neither side has count nothing, and so the sums may as well be taken over
all labels there are (`Counts.ratio_eq_quotient`).
-/

namespace Likeness

namespace Counts

/-! ### Entries -/

/-- The labels that have an entry. -/
def labels (c : Counts) : Finset String := (c.entries.map Prod.fst).toFinset

theorem nodup_labels (c : Counts) : (c.entries.map Prod.fst).Nodup := by
  rw [List.Nodup, List.pairwise_map]
  refine c.sorted.imp fun {e e'} hlt heq => ?_
  rw [heq] at hlt
  exact String.lt_irrefl _ hlt

theorem mem_labels {c : Counts} {label : String} :
    label ∈ c.labels ↔ ∃ n, (label, n) ∈ c.entries := by
  simp [labels]

theorem find?_eq_some_iff {c : Counts} {label : String} {n : UInt64} :
    c.find? label = some n ↔ (label, n) ∈ c.entries := by
  have hnodup := c.nodup_labels
  unfold find?
  generalize c.entries = entries at hnodup
  induction entries with
  | nil => simp
  | cons e entries ih =>
      obtain ⟨hfresh, hnodup⟩ := List.nodup_cons.mp hnodup
      rw [List.lookup_cons, List.mem_cons]
      by_cases hlabel : label = e.1
      · subst hlabel
        have hother : (e.1, n) ∉ entries := fun hmem => hfresh (List.mem_map.mpr ⟨_, hmem, rfl⟩)
        simp [hother, Prod.ext_iff, eq_comm]
      · have hne : (label, n) ≠ e := fun heq => hlabel (congrArg Prod.fst heq)
        simp [beq_false_of_ne hlabel, ih hnodup, hne]

theorem find?_eq_none_iff {c : Counts} {label : String} :
    c.find? label = none ↔ label ∉ c.labels := by
  rw [Option.eq_none_iff_forall_ne_some, mem_labels, not_exists]
  exact forall_congr' fun n => find?_eq_some_iff.not

theorem get_of_mem {c : Counts} {e : String × UInt64} (h : e ∈ c.entries) : c.get e.1 = e.2 := by
  rw [get, find?_eq_some_iff.mpr h, Option.getD_some]

theorem get_of_not_mem {c : Counts} {label : String} (h : label ∉ c.labels) : c.get label = 0 := by
  rw [get, find?_eq_none_iff.mpr h, Option.getD_none]

/-- A sum over the labels, entry by entry. -/
theorem sum_labels (c : Counts) (f : String → Nat) :
    ∑ label ∈ c.labels, f label = (c.entries.map fun e => f e.1).sum := by
  rw [labels, List.sum_toFinset f c.nodup_labels, List.map_map]
  rfl

/-! ### Sums over both sides -/

/-- The sum of the smaller counts of all labels. -/
def smaller (a b : Counts) : Nat :=
  ∑ label ∈ a.labels ∪ b.labels, min (a.get label).toNat (b.get label).toNat

/-- The sum of the larger counts of all labels. -/
def larger (a b : Counts) : Nat :=
  ∑ label ∈ a.labels ∪ b.labels, max (a.get label).toNat (b.get label).toNat

theorem smaller_comm (a b : Counts) : a.smaller b = b.smaller a := by
  rw [smaller, smaller, Finset.union_comm]
  exact Finset.sum_congr rfl fun _ _ => Nat.min_comm ..

theorem larger_comm (a b : Counts) : a.larger b = b.larger a := by
  rw [larger, larger, Finset.union_comm]
  exact Finset.sum_congr rfl fun _ _ => Nat.max_comm ..

theorem smaller_le_larger (a b : Counts) : a.smaller b ≤ a.larger b :=
  Finset.sum_le_sum fun _ _ => Nat.le_trans (Nat.min_le_left ..) (Nat.le_max_left ..)

/-- The entries that only the second side has. -/
def onlySecond (a b : Counts) : List (String × UInt64) :=
  b.entries.filter fun e => (a.find? e.1).isNone

theorem toFinset_onlySecond (a b : Counts) :
    ((onlySecond a b).map Prod.fst).toFinset = b.labels \ a.labels := by
  ext label
  simp only [onlySecond, List.mem_toFinset, List.mem_map, List.mem_filter, Finset.mem_sdiff,
    mem_labels, Option.isNone_iff_eq_none, find?_eq_none_iff]
  constructor
  · rintro ⟨⟨l, n⟩, ⟨hmem, hfresh⟩, rfl⟩
    exact ⟨⟨n, hmem⟩, hfresh⟩
  · rintro ⟨⟨n, hmem⟩, hfresh⟩
    exact ⟨(label, n), ⟨hmem, hfresh⟩, rfl⟩

/-- A sum over the labels of both sides, in two passes. -/
theorem sum_union (a b : Counts) (f : String → Nat) :
    ∑ label ∈ a.labels ∪ b.labels, f label =
      (a.entries.map fun e => f e.1).sum + ((onlySecond a b).map fun e => f e.1).sum := by
  have hnodup : ((onlySecond a b).map Prod.fst).Nodup :=
    b.nodup_labels.sublist (List.filter_sublist.map _)
  rw [← Finset.union_sdiff_self_eq_union, Finset.sum_union Finset.disjoint_sdiff, sum_labels,
    ← toFinset_onlySecond, List.sum_toFinset f hnodup, List.map_map]
  rfl

theorem smaller_eq (a b : Counts) :
    a.smaller b = (a.entries.map fun e => min e.2.toNat (b.get e.1).toNat).sum := by
  have hrest : ((onlySecond a b).map fun e => min (a.get e.1).toNat (b.get e.1).toNat).sum = 0 := by
    refine List.sum_eq_zero fun n hn => ?_
    obtain ⟨e, he, rfl⟩ := List.mem_map.mp hn
    have hnone : (a.find? e.1).isNone = true := (List.mem_filter.mp he).2
    rw [get_of_not_mem (find?_eq_none_iff.mp (Option.isNone_iff_eq_none.mp hnone))]
    exact Nat.zero_min _
  rw [smaller, sum_union, hrest, Nat.add_zero]
  refine congrArg List.sum (List.map_congr_left fun e he => ?_)
  rw [get_of_mem he]

theorem larger_eq (a b : Counts) :
    a.larger b = (a.entries.map fun e => max e.2.toNat (b.get e.1).toNat).sum +
      ((onlySecond a b).map fun e => e.2.toNat).sum := by
  rw [larger, sum_union]
  congr 2
  · refine List.map_congr_left fun e he => ?_
    rw [get_of_mem he]
  · refine List.map_congr_left fun e he => ?_
    obtain ⟨hmem, hnone⟩ := List.mem_filter.mp he
    rw [get_of_not_mem (find?_eq_none_iff.mp (Option.isNone_iff_eq_none.mp hnone)),
      get_of_mem hmem]
    exact Nat.zero_max _

/-! ### Checked sums -/

/-- A list of checked additions comes to the sum, or one of them fails. -/
theorem foldlM_checkedAdd (ns : List Nat) {start : Nat} (h : start < wordLimit) :
    ns.foldlM checkedAdd start =
      if start + ns.sum < wordLimit then .ok (start + ns.sum) else .error .add := by
  induction ns generalizing start with
  | nil => simp [h, pure, Except.pure]
  | cons n ns ih =>
      rw [List.foldlM_cons, List.sum_cons, checkedAdd]
      by_cases hn : start + n < wordLimit
      · rw [if_pos hn, ← Nat.add_assoc]
        exact ih hn
      · rw [if_neg hn, if_neg (by omega)]
        rfl

/-- One entry of the first side. -/
def enter (b : Counts) (sums : Nat × Nat) (e : String × UInt64) : Except Overflow (Nat × Nat) :=
  match b.find? e.1 with
  | some m => do
    return (← checkedAdd sums.1 (min e.2.toNat m.toNat),
      ← checkedAdd sums.2 (max e.2.toNat m.toNat))
  | none => do return (sums.1, ← checkedAdd sums.2 e.2.toNat)

theorem enter_eq (b : Counts) (e : String × UInt64) {shared all : Nat} (hle : shared ≤ all) :
    enter b (shared, all) e =
      if all + max e.2.toNat (b.get e.1).toNat < wordLimit then
        .ok (shared + min e.2.toNat (b.get e.1).toNat, all + max e.2.toNat (b.get e.1).toNat)
      else .error .add := by
  unfold enter get
  cases hfind : b.find? e.1 with
  | none =>
      have hzero : (Option.getD none (0 : UInt64)).toNat = 0 := rfl
      rw [hzero, Nat.max_zero, Nat.min_zero, Nat.add_zero]
      simp only [checkedAdd]
      split <;> rfl
  | some m =>
      rw [Option.getD_some]
      simp only [checkedAdd]
      by_cases hall : all + max e.2.toNat m.toNat < wordLimit
      · have hshared : shared + min e.2.toNat m.toNat < wordLimit := by omega
        simp only [if_pos hall, if_pos hshared]
        rfl
      · simp only [if_neg hall]
        split <;> rfl

theorem foldlM_enter (b : Counts) (es : List (String × UInt64)) {shared all : Nat}
    (hle : shared ≤ all) (hall : all < wordLimit) :
    es.foldlM (enter b) (shared, all) =
      if all + (es.map fun e => max e.2.toNat (b.get e.1).toNat).sum < wordLimit then
        .ok (shared + (es.map fun e => min e.2.toNat (b.get e.1).toNat).sum,
          all + (es.map fun e => max e.2.toNat (b.get e.1).toNat).sum)
      else .error .add := by
  induction es generalizing shared all with
  | nil => simp [hall, pure, Except.pure]
  | cons e es ih =>
      rw [List.foldlM_cons, enter_eq b e hle, List.map_cons, List.map_cons, List.sum_cons,
        List.sum_cons]
      by_cases hfirst : all + max e.2.toNat (b.get e.1).toNat < wordLimit
      · rw [if_pos hfirst, ← Nat.add_assoc, ← Nat.add_assoc]
        exact ih (by omega) hfirst
      · rw [if_neg hfirst, if_neg (by omega)]
        rfl

/-- **Two passes come to the sums over all labels.** Some addition fails exactly if the larger counts
do not fit a word together. -/
theorem overlap_eq (a b : Counts) : overlap a b =
    if a.larger b < wordLimit then .ok (a.smaller b, a.larger b) else .error .add := by
  have hpass : overlap a b = (do
      let sums ← a.entries.foldlM (enter b) (0, 0)
      let rest ← checkedSum ((onlySecond a b).map fun e => e.2.toNat)
      return (sums.1, ← checkedAdd sums.2 rest)) := rfl
  have hzero : 0 < wordLimit := by decide
  rw [hpass, foldlM_enter b a.entries (Nat.le_refl 0) hzero, checkedSum,
    foldlM_checkedAdd _ hzero, larger_eq, smaller_eq]
  simp only [Nat.zero_add]
  generalize (a.entries.map fun e => max e.2.toNat (b.get e.1).toNat).sum = first
  generalize ((onlySecond a b).map fun e => e.2.toNat).sum = second
  by_cases hsum : first + second < wordLimit
  · rw [if_pos (by omega : first < wordLimit), if_pos (by omega : second < wordLimit), if_pos hsum]
    simp only [bind, Except.bind, checkedAdd, if_pos hsum]
    rfl
  · rw [if_neg hsum]
    split
    · split
      · simp only [bind, Except.bind, checkedAdd, if_neg hsum]
      · rfl
    · rfl

/-! ### Ratios -/

/-- The shared part of two counts, when the sums fit a word. -/
def share (a b : Counts) : Binary64 :=
  if a.entries = [] ∧ b.entries = [] then .one
  else if a.larger b = 0 then .zero
  else .ofNat (a.smaller b) / .ofNat (a.larger b)

theorem larger_eq_zero_of_empty {a b : Counts} (ha : a.entries = []) (hb : b.entries = []) :
    a.larger b = 0 := by
  simp [larger, labels, ha, hb]

/-- **Ratios of counts.** -/
theorem ratio_eq (a b : Counts) :
    a.ratio b = if a.larger b < wordLimit then .ok (a.share b) else .error .add := by
  unfold ratio share
  by_cases hempty : a.entries = [] ∧ b.entries = []
  · rw [if_pos hempty, if_pos hempty, larger_eq_zero_of_empty hempty.1 hempty.2]
    rfl
  · rw [if_neg hempty, if_neg hempty, overlap_eq]
    by_cases hfits : a.larger b < wordLimit
    · rw [if_pos hfits, if_pos hfits]
      change (if a.larger b = 0 then _ else _) = _
      split <;> rfl
    · rw [if_neg hfits, if_neg hfits]
      rfl

theorem share_comm (a b : Counts) : a.share b = b.share a := by
  rw [share, share, smaller_comm, larger_comm]
  simp only [and_comm]

/-- A ratio does not depend on the order of the two sides, and neither does its failure. -/
theorem ratio_comm (a b : Counts) : a.ratio b = b.ratio a := by
  rw [ratio_eq, ratio_eq, larger_comm, share_comm]

/-! ### Sums over all labels -/

/-- Labels without an entry on either side add nothing to a sum of what is counted. -/
theorem finsum_eq_sum_labels (a b : Counts) {f : Nat → Nat → Nat} (hzero : f 0 0 = 0) :
    ∑ᶠ label, f (a.get label).toNat (b.get label).toNat =
      ∑ label ∈ a.labels ∪ b.labels, f (a.get label).toNat (b.get label).toNat := by
  refine finsum_eq_sum_of_support_subset _ fun label hsupport => ?_
  by_contra hnone
  rw [Finset.mem_coe, Finset.mem_union, not_or] at hnone
  refine hsupport ?_
  show f (a.get label).toNat (b.get label).toNat = 0
  rw [get_of_not_mem hnone.1, get_of_not_mem hnone.2]
  exact hzero

theorem smaller_eq_finsum (a b : Counts) :
    a.smaller b = ∑ᶠ label, min (a.get label).toNat (b.get label).toNat :=
  (finsum_eq_sum_labels a b (Nat.min_self 0)).symm

theorem larger_eq_finsum (a b : Counts) :
    a.larger b = ∑ᶠ label, max (a.get label).toNat (b.get label).toNat :=
  (finsum_eq_sum_labels a b (Nat.max_self 0)).symm

/-- The two sums are equal just when both sides count the same. -/
theorem smaller_eq_larger_iff {a b : Counts} :
    a.smaller b = a.larger b ↔ ∀ label, a.get label = b.get label := by
  have hsame {m n : UInt64} : min m.toNat n.toNat = max m.toNat n.toNat ↔ m = n := by
    rw [← UInt64.toNat_inj]
    omega
  rw [smaller, larger, Finset.sum_eq_sum_iff_of_le fun _ _ =>
    (Nat.min_le_left ..).trans (Nat.le_max_left ..)]
  constructor
  · intro hequal label
    by_cases hlabel : label ∈ a.labels ∪ b.labels
    · exact hsame.mp (hequal label hlabel)
    · rw [Finset.mem_union, not_or] at hlabel
      rw [get_of_not_mem hlabel.1, get_of_not_mem hlabel.2]
  · exact fun hequal label _ => hsame.mpr (hequal label)

/-- **The ratio of two counts** is that of the smaller to the larger counts, added up over all labels,
and it is refused just when the larger ones do not fit a word together. The order of the two sides makes
no difference. -/
theorem ratio_eq_quotient (a b : Counts) :
    let shared := ∑ᶠ label, min (a.get label).toNat (b.get label).toNat
    let all := ∑ᶠ label, max (a.get label).toNat (b.get label).toNat
    (a.ratio b =
        if wordLimit ≤ all then .error .add
        else if a.entries = [] ∧ b.entries = [] then .ok .one
        else if all = 0 then .ok .zero
        else .ok (.ofNat shared / .ofNat all)) ∧
      a.ratio b = b.ratio a ∧ shared ≤ all ∧
      (shared = all ↔ ∀ label, a.get label = b.get label) := by
  dsimp only
  rw [← smaller_eq_finsum, ← larger_eq_finsum]
  refine ⟨?_, ratio_comm a b, smaller_le_larger a b, smaller_eq_larger_iff⟩
  rw [ratio_eq]
  by_cases hfits : a.larger b < wordLimit
  · rw [if_pos hfits, if_neg (Nat.not_le.mpr hfits), share, ← apply_ite Except.ok,
      ← apply_ite Except.ok]
  · rw [if_neg hfits, if_pos (Nat.not_lt.mp hfits)]

end Counts

end Likeness
