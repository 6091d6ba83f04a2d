import Likeness.Proofs.Compare.Counts
import Likeness.Proofs.Compare.Levels

/-!
# Likeness.Proofs.Compare.Fitting

Which works can be compared. A record may hold any counts that fit a word each, and nothing is asked
of their sum. So a comparison of works that were read fails where the larger counts of some category
do not fit a word together (`Work.Fits`), and it fails nowhere else.
-/

namespace Likeness

namespace Binary64

/-- Whether a number lies between zero and one. -/
def InUnit (x : Binary64) : Prop := zero.le x = true ∧ x.le one = true

theorem InUnit.zero : Binary64.zero.InUnit := ⟨by decide, by decide⟩

theorem InUnit.one : Binary64.one.InUnit := ⟨by decide, by decide⟩

theorem InUnit.ofCode {code : Nat} (h : code ≤ Binary64.one.code) : (ofCode false code).InUnit := by
  have hfinite : code ≤ infiniteCode := h.trans (by decide)
  have hlt := lt_of_le_of_lt hfinite infiniteCode_lt
  have hone : Binary64.one.rank = Binary64.one.code := by decide
  have hnumber : (Binary64.ofCode false code).isNaN = false := by
    rw [isNaN, code_ofCode hlt]
    exact decide_eq_false (Nat.not_lt.mpr hfinite)
  have hrank : (Binary64.ofCode false code).rank = code := by
    rw [rank, isNegative_ofCode hlt, code_ofCode hlt]
    rfl
  constructor
  · simp only [le, hnumber, hrank]
    exact decide_eq_true (Int.natCast_nonneg code)
  · simp only [le, hnumber, hrank, hone]
    exact decide_eq_true (Int.ofNat_le.mpr h)

end Binary64

namespace Counts

/-- The shared part of two counts lies between zero and one. -/
theorem share_inUnit {a b : Counts} (h : a.larger b < wordLimit) : (a.share b).InUnit := by
  unfold share
  split
  · exact .one
  · split
    · exact .zero
    · next hpos =>
      obtain ⟨code, hquotient, hcode⟩ :=
        Binary64.exists_div_ofNat_code (a.smaller_le_larger b) (Nat.pos_of_ne_zero hpos) h
      rw [hquotient]
      exact .ofCode hcode

/-- All that was counted. -/
def total (c : Counts) : Nat := (c.entries.map fun e => e.2.toNat).sum

theorem total_eq (c : Counts) : c.total = ∑ label ∈ c.labels, (c.get label).toNat := by
  rw [sum_labels, total]
  refine congrArg List.sum (List.map_congr_left fun e he => ?_)
  rw [get_of_mem he]

/-- The larger counts are no more than all counts of both sides. -/
theorem larger_le (a b : Counts) : a.larger b ≤ a.total + b.total := by
  have hextend {c : Counts} {s : Finset String} (hsub : c.labels ⊆ s) :
      c.total = ∑ label ∈ s, (c.get label).toNat := by
    rw [total_eq]
    refine Finset.sum_subset hsub fun label _ hlabel => ?_
    rw [get_of_not_mem hlabel]
    rfl
  rw [hextend (c := a) Finset.subset_union_left, hextend (c := b) Finset.subset_union_right,
    ← Finset.sum_add_distrib]
  exact Finset.sum_le_sum fun _ _ => Nat.max_le.mpr ⟨Nat.le_add_right .., Nat.le_add_left ..⟩

end Counts

namespace Work

/-- The counts of a category. -/
def counts (w : Work) : Category → Counts
  | .operator => w.operators
  | .keyword => w.keywords
  | .literal => w.literals

/-- Whether the larger counts of two works fit a word together, in each category. -/
def Fits (a b : Work) : Prop := ∀ c, (a.counts c).larger (b.counts c) < wordLimit

/-- Works whose counts all fit a word together fit each other. -/
theorem Fits.of_total {a b : Work}
    (h : ∀ c, (a.counts c).total + (b.counts c).total < wordLimit) : a.Fits b :=
  fun c => lt_of_le_of_lt (Counts.larger_le ..) (h c)

variable {a b : Work}

theorem exists_quickCompare (h : a.Fits b) (windowLength : Nat) (weights : Weights) :
    ∃ quick, quickCompare a b windowLength weights = .ok quick := by
  have hratio (c : Category) :
      (a.counts c).ratio (b.counts c) = .ok ((a.counts c).share (b.counts c)) := by
    rw [Counts.ratio_eq, if_pos (h c)]
  have hoperators : a.operators.ratio b.operators = _ := hratio .operator
  have hkeywords : a.keywords.ratio b.keywords = _ := hratio .keyword
  have hliterals : a.literals.ratio b.literals = _ := hratio .literal
  unfold quickCompare
  rw [hoperators, hkeywords, hliterals]
  exact ⟨_, rfl⟩

theorem quickCompare_of_not_fits (h : ¬ a.Fits b) (windowLength : Nat) (weights : Weights) :
    quickCompare a b windowLength weights = .error .add := by
  obtain ⟨c, hc⟩ := Classical.not_forall.mp h
  unfold quickCompare
  simp only [Counts.ratio_eq]
  -- The categories come one after the other, and whichever is the first to fail fails alike.
  cases c <;> simp only [counts] at hc <;> simp only [if_neg hc] <;> (repeat' split) <;> rfl

/-- **What can fail in a comparison of works that were read** is a sum of counts, whatever the
settings. If the larger counts of each category fit a word together, the comparison has a verdict and
each ratio of counts lies between zero and one; if they do not, the comparison ends with the addition
that failed. -/
theorem compareWorks_of_ofRecord {path path' : Path} {text text' : String}
    (ha : ofRecord path text = .ok a) (hb : ofRecord path' text' = .ok b) (s : CompareSettings)
    (now : Moment) :
    (a.Fits b → (∃ v, compareWorks a b s now = .ok v) ∧
      ∀ c, ∃ x, (a.counts c).ratio (b.counts c) = .ok x ∧ x.InUnit) ∧
    (¬ a.Fits b → compareWorks a b s now = .error (.overflow .add) ∧
      ∃ c, (a.counts c).ratio (b.counts c) = .error .add) := by
  constructor
  · intro hfits
    constructor
    · obtain ⟨quick, hquick⟩ := exists_quickCompare hfits s.windowLength.toNat s.weights
      obtain ⟨full, hfull⟩ := exists_compareOutlines (Made.read ha).wellNested
        (Made.read hb).wellNested s.maxDepth quick now
      rw [compareWorks_eq, hquick]
      change ∃ v, (if s.stays quick then Except.ok (Verdict.quick quick) else _) = .ok v
      split
      · exact ⟨_, rfl⟩
      · exact ⟨full, hfull⟩
    · intro c
      exact ⟨_, by rw [Counts.ratio_eq, if_pos (hfits c)], Counts.share_inUnit (hfits c)⟩
  · intro hlarge
    constructor
    · rw [compareWorks_eq, quickCompare_of_not_fits hlarge]
      rfl
    · obtain ⟨c, hc⟩ := Classical.not_forall.mp hlarge
      exact ⟨c, by rw [Counts.ratio_eq, if_neg hc]⟩

/-- A work in which only operators were counted. -/
def tallied (path : Path) (operators : List (String × UInt64)) : Work :=
  { blank path with operators := .ofList operators }

theorem ofRecord_tallied (source path : Path) (operators : List (String × UInt64)) :
    ofRecord source (tallied path operators).recordText = .ok (tallied path operators) := by
  rw [ofRecord_recordText]
  rfl

/-- Two records with small counts, and two with counts next to the end of a word. -/
theorem compareWorks_of_ofRecord_tallied :
    let a := tallied ⟨"a.py"⟩ [("+", 3), ("-", 1)]
    let b := tallied ⟨"b.py"⟩ [("+", 2), ("*", 5)]
    let huge := tallied ⟨"c.py"⟩ [("+", 18446744073709551615)]
    (∃ v, compareWorks a b .default ⟨0, 0⟩ = .ok v) ∧
      compareWorks b huge .default ⟨0, 0⟩ = .error (.overflow .add) := by
  intro a b huge
  have hfits : a.Fits b := Fits.of_total fun c => by cases c <;> decide +kernel
  have hlarge : ¬ b.Fits huge := fun h => absurd (h .operator) (by decide +kernel)
  have ha := ofRecord_tallied ⟨"a.json"⟩ ⟨"a.py"⟩ [("+", 3), ("-", 1)]
  have hb := ofRecord_tallied ⟨"b.json"⟩ ⟨"b.py"⟩ [("+", 2), ("*", 5)]
  have hhuge := ofRecord_tallied ⟨"c.json"⟩ ⟨"c.py"⟩ [("+", 18446744073709551615)]
  exact ⟨((compareWorks_of_ofRecord ha hb .default ⟨0, 0⟩).1 hfits).1,
    ((compareWorks_of_ofRecord hb hhuge .default ⟨0, 0⟩).2 hlarge).1⟩

/-- Two records with the same operators, each count in a word of its own, that cannot be compared. -/
theorem exists_incomparable_records : ∃ a b : Work,
    ofRecord ⟨"a.py"⟩ a.recordText = .ok a ∧ ofRecord ⟨"b.py"⟩ b.recordText = .ok b ∧
      CompareSettings.default.check = .ok () ∧
      a.operators.ratio b.operators = .error .add ∧
      ∀ now v, compareWorks a b .default now ≠ .ok v := by
  refine ⟨tallied ⟨"a.py"⟩ [("a", 18446744073709551615), ("b", 1)],
    tallied ⟨"b.py"⟩ [("a", 18446744073709551615), ("b", 1)], ofRecord_tallied .., ofRecord_tallied ..,
    by decide +kernel, by decide +kernel, fun now v => ?_⟩
  rw [compareWorks_eq, quickCompare_of_not_fits fun h => absurd (h .operator) (by decide +kernel)]
  nofun

end Work

end Likeness
