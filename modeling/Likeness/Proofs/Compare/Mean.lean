import Likeness.Proofs.Compare.Fitting
import Likeness.Proofs.Compare.Record
import Likeness.Proofs.Number.Arithmetic
import Likeness.Proofs.Sequence.Window

/-!
# Likeness.Proofs.Compare.Mean

The verdicts of comparisons can be written.

The quick measures lie between zero and one, so that their weighted mean is a sum of parts of the weights,
divided by the sum of the weights. That is at most one, if the sum of the weights is finite
(`isFinite_weightedMean`).
-/

namespace Likeness

open Binary64

/-! ### Measures -/

theorem Binary64.InUnit.amount {x : Binary64} (h : x.InUnit) :
    x.Amount ∧ x.code ≤ Binary64.one.code := by
  obtain ⟨hzero, hone⟩ := h
  simp only [le, Bool.and_eq_true, decide_eq_true_eq] at hzero hone
  have hzeroRank : Binary64.zero.rank = 0 := by decide
  have honeRank : Binary64.one.rank = Binary64.one.code := by decide
  rw [hzeroRank] at hzero
  rw [honeRank] at hone
  have hcode : x.code ≤ Binary64.one.code := by
    have hpos := hzero.2
    have hle := hone.2
    by_cases hnegative : x.isNegative = true
    · rw [rank, if_pos hnegative] at hpos
      omega
    · rw [rank, if_neg hnegative] at hle
      omega
  exact ⟨⟨lt_of_le_of_lt hcode (by decide), hzero.2⟩, hcode⟩

/-- The overlap of two sequences lies between zero and one, unless there are too many windows to be
counted. -/
theorem Sequence.windowOverlap_inUnit {α : Type} [DecidableEq α] {n : Nat} {a b : List α}
    (ha : a.length < 2 ^ 63) (hb : b.length < 2 ^ 63) : (windowOverlap n a b).InUnit := by
  have hcard (xs : List α) : (windowSet n xs).card ≤ xs.length := by
    refine (List.toFinset_card_le _).trans ?_
    unfold windows
    split
    · exact Nat.zero_le _
    · rw [List.length_map, List.length_range]
      omega
  rw [windowOverlap_eq]
  split
  · exact .zero
  next hpos =>
    have hunion := Finset.card_union_le (windowSet n a) (windowSet n b)
    have hlimit : (windowSet n a ∪ windowSet n b).card < 2 ^ 64 := by
      have hfirst := hcard a
      have hsecond := hcard b
      omega
    have hsub : (windowSet n a ∩ windowSet n b).card ≤ (windowSet n a ∪ windowSet n b).card :=
      Finset.card_le_card (Finset.inter_subset_left.trans Finset.subset_union_left)
    obtain ⟨code, hquotient, hcode⟩ := exists_div_ofNat_code hsub (Nat.pos_of_ne_zero hpos) hlimit
    rw [hquotient]
    exact .ofCode hcode

/-- The ratio of any fraction is finite. -/
theorem Fraction.isFinite_ratio (f : Fraction) : f.ratio.isFinite = true := by
  unfold ratio
  split
  · decide
  next hne =>
    have hsize (i : Int64) : i.toInt.natAbs ≤ 2 ^ 64 := by
      have hlow := i.le_toInt
      have hhigh := i.toInt_lt
      omega
    have hfinite (i : Int64) : (ofInt i.toInt).code < infiniteCode :=
      of_decide_eq_true (isFinite_ofInt (hsize i))
    have hdenominator : one.code ≤ (ofInt f.denominator.toInt).code := by
      have hpos : 1 ≤ f.denominator.toInt.natAbs := by
        have hnonzero : f.denominator.toInt ≠ 0 := fun h =>
          hne (Int64.toInt_inj.mp (h.trans Int64.toInt_zero.symm))
        omega
      rw [ofInt, ofQuotient, roundQuotient, code_ofCode_signed _ (roundUnits_le ..), ← code_one]
      refine roundUnits_mono Nat.one_pos Nat.one_pos ?_
      exact Nat.mul_le_mul_right _ (Nat.mul_le_mul_right _ hpos)
    exact decide_eq_true
      (lt_of_le_of_lt (code_div_le (hfinite _) (hfinite _) hdenominator) (hfinite _))

/-! ### Sums -/

namespace Weights

variable {xs ws : List Binary64} {a b : Binary64}

/-- A sum that has become infinite stays so. -/
theorem foldl_infinite (hb : b.code = infiniteCode) (hws : ∀ w ∈ ws, w.Amount) :
    (ws.foldl (· + ·) b).code = infiniteCode := by
  induction ws generalizing b with
  | nil => exact hb
  | cons w ws ih =>
      obtain ⟨hw, hws⟩ := List.forall_mem_cons.mp hws
      exact ih (Amount.code_add_infinite hb hw) hws

/-- A sum of amounts that are not greater is not greater. -/
theorem foldl_le (h : List.Forall₂ (fun x w : Binary64 => x.Amount ∧ x.code ≤ w.code) xs ws)
    (hws : ∀ w ∈ ws, w.Amount) (ha : a.Amount) (hb : b.Amount) (hab : a.code ≤ b.code)
    (hfinite : (ws.foldl (· + ·) b).code < infiniteCode) :
    (xs.foldl (· + ·) a).Amount ∧ (xs.foldl (· + ·) a).code ≤ (ws.foldl (· + ·) b).code := by
  induction h generalizing a b with
  | nil => exact ⟨ha, hab⟩
  | @cons x w xs ws hxw _ ih =>
      obtain ⟨hw, hws⟩ := List.forall_mem_cons.mp hws
      have hle := ha.code_add_le hxw.1 hb hw hab hxw.2
      have hsum : (b + w).Amount := by
        obtain ⟨hcode, hrank⟩ := hb.code_add hw
        refine ⟨lt_of_le_of_ne (hcode ▸ roundUnits_le ..) fun hinfinite => ?_, hrank⟩
        have hall := foldl_infinite hinfinite hws
        exact hfinite.ne hall
      exact ih hws ⟨lt_of_le_of_lt hle hsum.finite, (ha.code_add hxw.1).2⟩ hsum hle hfinite

/-- Weights that pass the check are amounts. -/
theorem amounts_of_check {w : Weights} (h : w.check = .ok ()) : ∀ x ∈ w.toList, x.Amount := by
  have hamount {x : Binary64} {field : String}
      (hx : Settings.checkNonNegative x field = .ok ()) : x.Amount := by
    unfold Settings.checkNonNegative at hx
    split at hx
    · cases hx
    next hbad =>
      simp only [Bool.or_eq_true, not_or, Bool.not_eq_true', Bool.not_eq_false] at hbad
      have hfinite : x.code < infiniteCode := of_decide_eq_true hbad.1
      refine ⟨hfinite, ?_⟩
      have hNaN : x.isNaN = false := decide_eq_false (Nat.not_lt.mpr hfinite.le)
      have hzero : zero.isNaN = false ∧ zero.rank = 0 := by decide
      have hnot := hbad.2
      rw [lt, hNaN, hzero.1, hzero.2] at hnot
      simpa using hnot
  obtain ⟨⟨⟩, htokens, h⟩ := Except.bind_eq_ok.mp h
  obtain ⟨⟨⟩, hoperators, h⟩ := Except.bind_eq_ok.mp h
  obtain ⟨⟨⟩, hkeywords, h⟩ := Except.bind_eq_ok.mp h
  obtain ⟨⟨⟩, hliterals, h⟩ := Except.bind_eq_ok.mp h
  intro x hx
  simp only [toList, List.mem_cons, List.not_mem_nil, or_false] at hx
  rcases hx with rfl | rfl | rfl | rfl
  exacts [hamount htokens, hamount hoperators, hamount hkeywords, hamount hliterals]

end Weights

/-- **The mean of measures** between zero and one is finite, if the sum of the weights is. -/
theorem isFinite_weightedMean {values weights : List Binary64}
    (h : List.Forall₂ (fun x w : Binary64 => x.InUnit ∧ w.Amount) values weights)
    (hsum : (Weights.sum weights).isFinite = true) : (weightedMean values weights).isFinite = true := by
  have hweights : ∀ w ∈ weights, w.Amount := by
    clear hsum
    induction h with
    | nil => nofun
    | cons hxw _ ih => exact List.forall_mem_cons.mpr ⟨hxw.2, ih⟩
  have hparts : List.Forall₂ (fun x w : Binary64 => x.Amount ∧ x.code ≤ w.code)
      (List.zipWith (· * ·) values weights) weights := by
    clear hsum hweights
    induction h with
    | nil => exact .nil
    | cons hxw _ ih =>
        obtain ⟨hx, hone⟩ := hxw.1.amount
        have hle := code_mul_le hone hxw.2.finite
        exact .cons ⟨⟨lt_of_le_of_lt hle hxw.2.finite, hx.rank_mul hxw.2⟩, hle⟩ ih
  have hwhole : List.Forall₂ (fun x w : Binary64 => x.Amount ∧ x.code ≤ w.code) weights weights :=
    List.forall₂_same.mpr fun w hw => ⟨hweights w hw, Nat.le_refl _⟩
  have hstart : (ofCode true 0).Amount := ⟨by decide, by decide⟩
  have hfinite : (Weights.sum weights).code < infiniteCode := of_decide_eq_true hsum
  have htotal : (Weights.sum weights).Amount :=
    (Weights.foldl_le hwhole hweights hstart hstart (Nat.le_refl _) hfinite).1
  have hpart := (Weights.foldl_le hparts hweights hstart hstart (Nat.le_refl _) hfinite).2
  unfold weightedMean
  dsimp only
  split
  · decide
  next hpositive =>
    have hpos : 0 < (Weights.sum weights).code := by
      refine Nat.pos_of_ne_zero fun hzero => hpositive ?_
      have hrank : (Weights.sum weights).rank = 0 := by
        rw [rank, hzero]
        split <;> rfl
      rw [le, htotal.isNaN_eq, hrank]
      decide
    exact decide_eq_true (lt_of_le_of_lt (code_div_le_one hfinite hpos hpart) (by decide))

/-! ### Verdicts -/

variable {a b : Work} {s : CompareSettings} {now : Moment}

theorem finite_quickCompare {windowLength : Nat} {weights : Weights} {quick : QuickLikeness}
    (hweights : weights.check = .ok ()) (hsum : (Weights.sum weights.toList).isFinite = true)
    (ha : a.tokens.length < 2 ^ 63) (hb : b.tokens.length < 2 ^ 63)
    (h : quickCompare a b windowLength weights = .ok quick) : quick.Finite := by
  have hfits : a.Fits b := by
    by_contra hlarge
    rw [Work.quickCompare_of_not_fits hlarge] at h
    cases h
  have hratio {c : Work.Category} {x : Binary64}
      (hx : (a.counts c).ratio (b.counts c) = .ok x) : x.InUnit := by
    rw [Counts.ratio_eq, if_pos (hfits c)] at hx
    exact Except.ok.inj hx ▸ Counts.share_inUnit (hfits c)
  obtain ⟨operators, hoperators, h⟩ := Except.bind_eq_ok.mp h
  obtain ⟨keywords, hkeywords, h⟩ := Except.bind_eq_ok.mp h
  obtain ⟨literals, hliterals, h⟩ := Except.bind_eq_ok.mp h
  cases h
  have htokens : (Sequence.windowOverlap windowLength a.tokens b.tokens).InUnit :=
    Sequence.windowOverlap_inUnit ha hb
  have hoperators : operators.InUnit := hratio (c := .operator) hoperators
  have hkeywords : keywords.InUnit := hratio (c := .keyword) hkeywords
  have hliterals : literals.InUnit := hratio (c := .literal) hliterals
  have hamounts := Weights.amounts_of_check hweights
  simp only [Weights.toList, List.forall_mem_cons] at hamounts
  obtain ⟨hw, hw', hw'', hw''', -⟩ := hamounts
  have hfinite {x : Binary64} (hx : x.InUnit) : x.isFinite = true := decide_eq_true hx.amount.1.finite
  refine ⟨hfinite htokens, hfinite hoperators, hfinite hkeywords, hfinite hliterals, ?_⟩
  exact isFinite_weightedMean (.cons ⟨htokens, hw⟩ (.cons ⟨hoperators, hw'⟩
    (.cons ⟨hkeywords, hw''⟩ (.cons ⟨hliterals, hw'''⟩ .nil)))) hsum

/-- **The verdict of a comparison can be written**, if the sum of the weights is finite. -/
theorem Batch.storable_of_comparison {v : Verdict} (hweights : s.weights.check = .ok ())
    (hsum : (Weights.sum s.weights.toList).isFinite = true) (hnow : now.Valid)
    (ha : a.tokens.length < 2 ^ 63) (hb : b.tokens.length < 2 ^ 63)
    (h : comparison s now a b = .verdict v) : v.Storable := by
  cases hquick : quickCompare a b s.windowLength.toNat s.weights with
  | error o =>
      rw [comparison_of_overflow now hquick] at h
      cases h
  | ok quick =>
      have hfinite := finite_quickCompare hweights hsum ha hb hquick
      cases hstays : s.stays quick with
      | true =>
          rw [comparison_of_stays now hquick hstays] at h
          cases h
          exact hfinite
      | false =>
          rw [comparison_of_reaches now hquick hstays] at h
          rw [compareOutlines_eq_ok (Comparison.ofResult_eq_verdict h)]
          exact ⟨hnow, hfinite, Fraction.isFinite_ratio _⟩

end Likeness
