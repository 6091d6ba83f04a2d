import Mathlib.Tactic.Ring
import Likeness.Outline.Fraction

/-!
# Likeness.Proofs.Number.Weight

Ratios as natural numbers. A selection of cells only ever asks whether one ratio is greater than
another that is zero or positive. For such questions a ratio can be replaced by its **weight**, its
place among the positive numbers (`Binary64.lt_iff_weight_lt`), and all reasoning about ties takes
place in `Nat`.

The second half shows that the weight of a score is positive as soon as something was matched and
both parts fit a 64-bit integer (`Score.weight_pos`). The quotient of two such integers is far away
from both ends of the range of numbers, so the proof only needs coarse bounds on `roundUnits`.
-/

namespace Likeness

namespace Binary64

/-! ### Weights -/

/-- The place of a number among the positive ones; `0` for all that is not above zero. -/
def weight (x : Binary64) : Nat := if x.isNaN then 0 else x.rank.toNat

@[simp] theorem weight_zero : zero.weight = 0 := by decide

/-- Above a number that is not negative, the numeric order is the order of weights. -/
theorem lt_iff_weight_lt {x y : Binary64} (hx : x.isNaN = false) (hpos : 0 ≤ x.rank) :
    x.lt y = true ↔ x.weight < y.weight := by
  have hwx : x.weight = x.rank.toNat := by simp [weight, hx]
  cases hy : y.isNaN with
  | true => simp [lt, weight, hy]
  | false =>
      have hwy : y.weight = y.rank.toNat := by simp [weight, hy]
      rw [hwx, hwy]
      simp only [lt, hx, hy, Bool.not_false, Bool.true_and, decide_eq_true_eq]
      omega

/-- Weights are bounded, so there is no endless chain of ever greater ones. -/
theorem weight_le (x : Binary64) : x.weight ≤ Nat.pow 2 63 := by
  have hcode : x.code < Nat.pow 2 63 := Nat.mod_lt _ (by decide)
  simp only [weight, rank]
  split
  · exact Nat.zero_le _
  · split <;> omega

/-- What has a positive weight is a number and not negative. -/
theorem of_weight_pos {x : Binary64} (h : 0 < x.weight) : x.isNaN = false ∧ 0 ≤ x.rank := by
  cases hx : x.isNaN with
  | true => simp [weight, hx] at h
  | false =>
      simp only [weight, hx, Bool.false_eq_true, if_false] at h
      exact ⟨rfl, by omega⟩

/-! ### Codes -/

theorem code_ofCode {c : Nat} (h : c < Nat.pow 2 63) : (ofCode false c).code = c := by
  have hwide : c < 2 ^ 64 := lt_trans h (by decide)
  simp only [ofCode, code, Bool.false_eq_true, if_false, UInt64.toNat_ofNat']
  rw [Nat.mod_eq_of_lt hwide, Nat.mod_eq_of_lt h]

theorem isNegative_ofCode {c : Nat} (h : c < Nat.pow 2 63) : (ofCode false c).isNegative = false := by
  have hwide : c < 2 ^ 64 := lt_trans h (by decide)
  simp only [ofCode, isNegative, Bool.false_eq_true, if_false, UInt64.toNat_ofNat',
    Nat.mod_eq_of_lt hwide, decide_eq_false_iff_not]
  omega

theorem infiniteCode_lt : infiniteCode < Nat.pow 2 63 := by decide

/-- The weight of a number without sign is its code. -/
theorem weight_ofCode {c : Nat} (h : c ≤ infiniteCode) : (ofCode false c).weight = c := by
  have hlt : c < Nat.pow 2 63 := lt_of_le_of_lt h infiniteCode_lt
  simp [weight, isNaN, rank, code_ofCode hlt, isNegative_ofCode hlt, Nat.not_lt.mpr h]

theorem significand_pos {c : Nat} (h : 0 < c) : 0 < significand c := by
  have hp : 0 < Nat.pow 2 52 := by decide
  unfold significand
  split <;> omega

theorem significand_lt (c : Nat) : significand c < Nat.pow 2 53 := by
  have hp : Nat.pow 2 53 = Nat.pow 2 52 + Nat.pow 2 52 := by decide
  have hmod : c % Nat.pow 2 52 < Nat.pow 2 52 := Nat.mod_lt _ (by decide)
  unfold significand
  split <;> omega

/-! ### Rounding -/

/-- A rounded quotient, by the number of bits dropped and the digits kept. The number of bits is
one of two, and the digits are those of the exact quotient or one more. -/
theorem roundUnits_eq (value lift divisor : Nat) :
    ∃ drop digits, roundUnits value lift divisor = min (drop * Nat.pow 2 52 + digits) infiniteCode ∧
      (value * 2 ^ lift).log2 - divisor.log2 - 53 ≤ drop ∧
      drop ≤ (value * 2 ^ lift).log2 - divisor.log2 - 53 + 1 ∧
      value * 2 ^ lift / (divisor * 2 ^ drop) ≤ digits ∧
      digits ≤ value * 2 ^ lift / (divisor * 2 ^ drop) + 1 := by
  have hdigits (up : Bool) (floor : Nat) :
      floor ≤ (if up then floor + 1 else floor) ∧ (if up then floor + 1 else floor) ≤ floor + 1 := by
    cases up <;> simp
  simp only [roundUnits, Nat.shiftLeft_eq]
  refine ⟨_, _, rfl, ?_, ?_, (hdigits _ _).1, (hdigits _ _).2⟩
  · split
    · exact Nat.le_refl _
    · exact Nat.le_succ _
  · split
    · exact Nat.le_succ _
    · exact Nat.le_refl _

/-- A quotient of at least one unit does not round to zero. -/
theorem roundUnits_pos {value lift divisor : Nat} (hd : 0 < divisor)
    (h : divisor ≤ value * 2 ^ lift) : 0 < roundUnits value lift divisor := by
  obtain ⟨drop, digits, heq, -, -, hdigits, -⟩ := roundUnits_eq value lift divisor
  have hinf : 0 < infiniteCode := by decide
  have hsum : 0 < drop * Nat.pow 2 52 + digits := by
    cases drop with
    | zero =>
        rw [Nat.pow_zero, Nat.mul_one] at hdigits
        exact Nat.add_pos_right _ (lt_of_lt_of_le (Nat.div_pos h hd) hdigits)
    | succ n => exact Nat.add_pos_left (Nat.mul_pos (Nat.succ_pos n) (by decide)) _
  rw [heq]
  exact Nat.lt_min.mpr ⟨hsum, hinf⟩

theorem roundUnits_le (value lift divisor : Nat) :
    roundUnits value lift divisor ≤ infiniteCode := Nat.min_le_right ..

/-- The number of bits of a lifted integer of fewer than 63 bits. -/
theorem log2_lifted {n : Nat} (lift : Nat) (hpos : 0 < n) (h : n < 2 ^ 63) :
    lift ≤ (n * 2 ^ lift).log2 ∧ (n * 2 ^ lift).log2 < 63 + lift := by
  have hne : n * 2 ^ lift ≠ 0 := (Nat.mul_pos hpos (Nat.two_pow_pos _)).ne'
  constructor
  · exact (Nat.le_log2 hne).mpr (Nat.le_mul_of_pos_left _ hpos)
  · rw [Nat.log2_lt hne, Nat.pow_add]
    exact Nat.mul_lt_mul_of_pos_right h (Nat.two_pow_pos _)

/-- The code of an integer of fewer than 63 bits lies between those of one quarter and `2 ^ 66`,
away from both zero and infinity. -/
theorem roundUnits_one_bounds {n : Nat} (lift : Nat) (hlift : lift = 1074) (hpos : 0 < n)
    (h : n < 2 ^ 63) :
    1021 * Nat.pow 2 52 ≤ roundUnits n lift 1 ∧ roundUnits n lift 1 < 1089 * Nat.pow 2 52 := by
  obtain ⟨drop, digits, heq, hlow, hhigh, -, hdigits⟩ := roundUnits_eq n lift 1
  obtain ⟨hlogLow, hlogHigh⟩ := log2_lifted lift hpos h
  have hone : Nat.log2 1 = 0 := by decide
  rw [hone, Nat.sub_zero] at hlow hhigh
  -- At most 54 bits are left of the quotient.
  have hkept : n * 2 ^ lift / (1 * 2 ^ drop) < 2 ^ 54 := by
    rw [Nat.one_mul, Nat.div_lt_iff_lt_mul (Nat.two_pow_pos _), ← Nat.pow_add]
    exact lt_of_lt_of_le Nat.lt_log2_self (Nat.pow_le_pow_right (by decide) (by omega))
  have hdrop : 1021 ≤ drop ∧ drop ≤ 1084 := by omega
  have hfew : digits ≤ 2 ^ 54 := le_trans hdigits hkept
  have h54 : (2 : Nat) ^ 54 = 4 * Nat.pow 2 52 := by decide
  have hinf : infiniteCode = 2047 * Nat.pow 2 52 := by decide
  rw [heq, hinf]
  rw [h54] at hfew
  generalize Nat.pow 2 52 = unit at *
  constructor
  · exact Nat.le_min.mpr
      ⟨le_trans (Nat.mul_le_mul_right unit hdrop.1) (Nat.le_add_right _ _),
        Nat.mul_le_mul_right unit (by decide)⟩
  · have hunit : 0 < unit := by omega
    calc min (drop * unit + digits) (2047 * unit) ≤ drop * unit + digits := Nat.min_le_left ..
      _ ≤ 1084 * unit + 4 * unit := Nat.add_le_add (Nat.mul_le_mul_right unit hdrop.2) hfew
      _ < 1089 * unit := by omega

theorem ofInt_natCast (n : Nat) : ofInt (n : Int) = ofCode false (roundUnits n unitPlaces 1) := by
  have hneg : decide ((n : Int) < 0) = false := by simp
  simp only [ofInt, ofQuotient, roundQuotient, hneg, Int.natAbs_natCast]

/-! ### Quotients -/

/-- Finite numbers without sign are divided by dividing their significands, scaled to one unit. -/
theorem div_ofCode {c d : Nat} (hc : c < infiniteCode) (hd : d < infiniteCode) (hpos : 0 < d) :
    ofCode false c / ofCode false d =
      ofCode false (roundUnits (significand c * 2 ^ (shift c - min (shift c) (shift d))) unitPlaces
        (significand d * 2 ^ (shift d - min (shift c) (shift d)))) := by
  have hc' := lt_trans hc infiniteCode_lt
  have hd' := lt_trans hd infiniteCode_lt
  have hcInfinite : (c == infiniteCode) = false := beq_eq_false_iff_ne.mpr hc.ne
  have hdInfinite : (d == infiniteCode) = false := beq_eq_false_iff_ne.mpr hd.ne
  have hdZero : (d == 0) = false := beq_eq_false_iff_ne.mpr hpos.ne'
  change Binary64.div (ofCode false c) (ofCode false d) = _
  simp only [Binary64.div, isNaN, isInfinite, isZero, code_ofCode hc', code_ofCode hd',
    isNegative_ofCode hc', isNegative_ofCode hd', Nat.not_lt.mpr hc.le, Nat.not_lt.mpr hd.le,
    hcInfinite, hdInfinite, hdZero, roundQuotient, decide_false, Bool.or_self, Bool.false_eq_true,
    if_false, bne_self_eq_false]
  rfl

/-- The quotient of two positive integers of fewer than 63 bits is positive. -/
theorem weight_div_pos {m n : Nat} (hm : 0 < m) (hm' : m < 2 ^ 63) (hn : 0 < n)
    (hn' : n < 2 ^ 63) : 0 < (ofInt (m : Int) / ofInt (n : Int)).weight := by
  obtain ⟨hmLow, hmHigh⟩ := roundUnits_one_bounds unitPlaces rfl hm hm'
  obtain ⟨hnLow, hnHigh⟩ := roundUnits_one_bounds unitPlaces rfl hn hn'
  rw [ofInt_natCast, ofInt_natCast]
  generalize roundUnits m unitPlaces 1 = c at *
  generalize roundUnits n unitPlaces 1 = d at *
  have hunit : 0 < Nat.pow 2 52 := by decide
  have hfinite : 1089 * Nat.pow 2 52 ≤ infiniteCode := by decide
  have hc : 0 < c := lt_of_lt_of_le (Nat.mul_pos (by decide) hunit) hmLow
  have hd : 0 < d := lt_of_lt_of_le (Nat.mul_pos (by decide) hunit) hnLow
  rw [div_ofCode (lt_of_lt_of_le hmHigh hfinite) (lt_of_lt_of_le hnHigh hfinite) hd,
    weight_ofCode (roundUnits_le ..)]
  refine roundUnits_pos (Nat.mul_pos (significand_pos hd) (Nat.two_pow_pos _)) ?_
  -- The divisor has at most 53 + 68 bits, and the value is lifted by more than a thousand.
  have hshift : shift d - min (shift c) (shift d) ≤ 68 := by
    have hcLow : 1021 ≤ c / Nat.pow 2 52 := (Nat.le_div_iff_mul_le hunit).mpr hmLow
    have hdHigh : d / Nat.pow 2 52 < 1089 := (Nat.div_lt_iff_lt_mul hunit).mpr hnHigh
    unfold shift
    generalize c / Nat.pow 2 52 = x at *
    generalize d / Nat.pow 2 52 = y at *
    omega
  calc significand d * 2 ^ (shift d - min (shift c) (shift d))
      ≤ 2 ^ 53 * 2 ^ 68 :=
        Nat.mul_le_mul (significand_lt d).le (Nat.pow_le_pow_right (by decide) hshift)
    _ ≤ 2 ^ unitPlaces := by rw [← Nat.pow_add]; exact Nat.pow_le_pow_right (by decide) (by decide)
    _ ≤ significand c * 2 ^ (shift c - min (shift c) (shift d)) * 2 ^ unitPlaces :=
        Nat.le_mul_of_pos_left _ (Nat.mul_pos (significand_pos hc) (Nat.two_pow_pos _))

end Binary64

namespace Score

/-- The weight of a score is that of its ratio. -/
def weight (s : Score) : Nat := s.ratio.weight

@[simp] theorem weight_zero : (0 : Score).weight = 0 := by decide

theorem weight_le (s : Score) : s.weight ≤ Nat.pow 2 63 := s.ratio.weight_le

/-- A score whose parts are positive and fit a 64-bit integer has a positive ratio. -/
theorem weight_pos_of_parts {s : Score} (hm : 0 < s.matched) (hm' : s.matched < 2 ^ 63)
    (ht : 0 < s.total) (ht' : s.total < 2 ^ 63) : 0 < s.weight := by
  have hmatched := Int64.toInt_ofNat_of_lt hm'
  have htotal := Int64.toInt_ofNat_of_lt ht'
  have hne : Int64.ofNat s.total ≠ 0 := by
    intro h
    rw [h, Int64.toInt_zero] at htotal
    omega
  simp only [weight, ratio, fraction, Fraction.ratio, hne, if_false, hmatched, htotal]
  exact Binary64.weight_div_pos hm hm' ht ht'

/-- A score with a match that fits a 64-bit integer has a positive ratio. -/
theorem weight_pos {s : Score} (hm : 0 < s.matched) (hle : s.matched ≤ s.total)
    (ht : s.total < 2 ^ 63) : 0 < s.weight :=
  weight_pos_of_parts hm (lt_of_le_of_lt hle ht) (lt_of_lt_of_le hm hle) ht

end Score

end Likeness
