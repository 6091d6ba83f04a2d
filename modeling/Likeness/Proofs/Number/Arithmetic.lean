import Likeness.Proofs.Number.Shortest

/-!
# Likeness.Proofs.Number.Arithmetic

Sums, products and quotients of amounts, which are the finite numbers that are not below zero
(`Binary64.Amount`).

The code of a result is the rounded exact result of the units of both parts (`Amount.code_add` and the
like). Rounding is monotone, and a number rounds to itself, so the results are in order when the parts
are: a part of an amount is not greater than the amount, and a sum with less in it is not greater.
-/

namespace Likeness

namespace Binary64

/-! ### Codes and signs -/

variable {c : Nat}

theorem code_ofCode_signed (negative : Bool) (h : c ≤ infiniteCode) :
    (ofCode negative c).code = c := by
  have hlt := lt_of_le_of_lt h infiniteCode_lt
  have hhalf : Nat.pow 2 63 = 9223372036854775808 := by decide
  simp only [ofCode, code, UInt64.toNat_ofNat']
  rw [hhalf] at hlt ⊢
  cases negative <;> simp <;> omega

theorem isNegative_ofCode_signed (negative : Bool) (h : c ≤ infiniteCode) :
    (ofCode negative c).isNegative = negative := by
  have hlt := lt_of_le_of_lt h infiniteCode_lt
  have hhalf : Nat.pow 2 63 = 9223372036854775808 := by decide
  simp only [ofCode, isNegative, UInt64.toNat_ofNat']
  rw [hhalf] at hlt ⊢
  cases negative <;> simp <;> omega

/-- A finite number rounds to itself. -/
theorem roundUnits_units (h : c < infiniteCode) : roundUnits (units c) 0 1 = c := by
  rcases Nat.eq_zero_or_pos c with rfl | hpos
  · decide
  refine roundUnits_of_contains Nat.one_pos hpos h ?_
  obtain ⟨hlow, hhigh⟩ := cell_proper hpos
  rw [Nat.pow_zero, Nat.mul_one, ← cell_value]
  exact ⟨.inl (by rwa [Nat.mul_one]), .inl (by rwa [Nat.mul_one])⟩

/-! ### Products and quotients -/

/-- The significand of a number, scaled to units of another shift. -/
theorem significand_scaled {low : Nat} (h : low ≤ shift c) :
    significand c * Nat.pow 2 (shift c - low) * 2 ^ low = units c := by
  rw [Nat.pow_eq, Nat.mul_assoc, ← Nat.pow_add, Nat.sub_add_cancel h, units]

variable {x y x' y' : Binary64}

theorem units_one : units one.code = Nat.pow 2 unitPlaces := by decide +kernel

theorem pow_unitPlaces_pos : 0 < Nat.pow 2 unitPlaces := units_one ▸ units_pos (by decide)

/-- The product of finite numbers is rounded from the product of their units. -/
theorem code_mul (hx : x.code < infiniteCode) (hy : y.code < infiniteCode) :
    (x * y).code = roundUnits (units x.code * units y.code) 0 (Nat.pow 2 unitPlaces) := by
  have hxNaN : x.isNaN = false := decide_eq_false (Nat.not_lt.mpr hx.le)
  have hyNaN : y.isNaN = false := decide_eq_false (Nat.not_lt.mpr hy.le)
  have hxInfinite : x.isInfinite = false := beq_eq_false_iff_ne.mpr hx.ne
  have hyInfinite : y.isInfinite = false := beq_eq_false_iff_ne.mpr hy.ne
  change (Binary64.mul x y).code = _
  rw [Binary64.mul, hxNaN, hyNaN, hxInfinite, hyInfinite, if_neg (by decide), if_neg (by decide),
    code_ofCode_signed _ (roundUnits_le ..)]
  refine roundUnits_congr pow_unitPlaces_pos pow_unitPlaces_pos ?_
  rw [units, units, Nat.pow_add]
  generalize Nat.pow 2 unitPlaces = one
  ring

/-- The quotient of finite numbers is rounded from the quotient of their units. -/
theorem code_div (hx : x.code < infiniteCode) (hy : y.code < infiniteCode) (hpos : 0 < y.code) :
    (x / y).code = roundUnits (units x.code) unitPlaces (units y.code) := by
  have hxNaN : x.isNaN = false := decide_eq_false (Nat.not_lt.mpr hx.le)
  have hyNaN : y.isNaN = false := decide_eq_false (Nat.not_lt.mpr hy.le)
  have hxInfinite : x.isInfinite = false := beq_eq_false_iff_ne.mpr hx.ne
  have hyInfinite : y.isInfinite = false := beq_eq_false_iff_ne.mpr hy.ne
  have hyZero : y.isZero = false := beq_eq_false_iff_ne.mpr hpos.ne'
  have hxunits := significand_scaled (Nat.min_le_left (shift x.code) (shift y.code))
  have hyunits := significand_scaled (Nat.min_le_right (shift x.code) (shift y.code))
  change (Binary64.div x y).code = _
  rw [Binary64.div, hxNaN, hyNaN, hxInfinite, hyInfinite, hyZero]
  dsimp only
  rw [if_neg (by decide), if_neg (by decide), if_neg (by decide), if_neg (by decide), roundQuotient,
    code_ofCode_signed _ (roundUnits_le ..)]
  refine roundUnits_congr (Nat.mul_pos (significand_pos hpos) (Nat.two_pow_pos _)) (units_pos hpos) ?_
  rw [← hxunits, ← hyunits]
  ring

/-- A quotient by a number that is not less than one is not greater. -/
theorem code_div_le (hx : x.code < infiniteCode) (hy : y.code < infiniteCode)
    (hone : one.code ≤ y.code) : (x / y).code ≤ x.code := by
  have hpos : 0 < y.code := lt_of_lt_of_le (by decide) hone
  rw [code_div hx hy hpos]
  calc roundUnits (units x.code) unitPlaces (units y.code)
      ≤ roundUnits (units x.code) 0 1 := by
        refine roundUnits_mono (units_pos hpos) Nat.one_pos ?_
        rw [Nat.mul_one, Nat.pow_zero, Nat.mul_one, ← Nat.pow_eq, ← units_one]
        exact Nat.mul_le_mul_left _ (units_mono hone)
    _ = x.code := roundUnits_units hx

/-- The quotient by a number that is not less is at most one. -/
theorem code_div_le_one (hy : y.code < infiniteCode) (hpos : 0 < y.code) (h : x.code ≤ y.code) :
    (x / y).code ≤ one.code := by
  rw [code_div (lt_of_le_of_lt h hy) hy hpos]
  exact roundUnits_le_one (units_pos hpos) (units_mono h)

/-- A part of a number is not greater than the number. -/
theorem code_mul_le (hx : x.code ≤ one.code) (hy : y.code < infiniteCode) :
    (x * y).code ≤ y.code := by
  rw [code_mul (lt_of_le_of_lt hx (by decide)) hy]
  calc roundUnits (units x.code * units y.code) 0 (Nat.pow 2 unitPlaces)
      ≤ roundUnits (units y.code) 0 1 := by
        refine roundUnits_mono pow_unitPlaces_pos Nat.one_pos ?_
        rw [Nat.pow_zero, Nat.mul_one, Nat.mul_one, Nat.mul_one, Nat.mul_comm (units y.code),
          ← units_one]
        exact Nat.mul_le_mul_right _ (units_mono hx)
    _ = y.code := roundUnits_units hy

/-! ### Amounts -/

/-- A finite number that is not below zero. -/
structure Amount (x : Binary64) : Prop where
  finite : x.code < infiniteCode
  nonneg : 0 ≤ x.rank

theorem rank_ofCode_nonneg {negative : Bool} (h : c ≤ infiniteCode)
    (hsign : negative = true → c = 0) : 0 ≤ (ofCode negative c).rank := by
  rw [rank, code_ofCode_signed _ h, isNegative_ofCode_signed _ h]
  cases negative with
  | true =>
      rw [hsign rfl]
      decide
  | false => exact Int.natCast_nonneg c

namespace Amount

theorem code_eq_zero (h : x.Amount) (hnegative : x.isNegative = true) : x.code = 0 := by
  have hrank := h.nonneg
  rw [rank, if_pos hnegative] at hrank
  omega

theorem signed_eq (h : x.Amount) : x.signed = significand x.code := by
  unfold signed
  split
  next hnegative =>
    rw [h.code_eq_zero hnegative]
    rfl
  next => rfl

theorem isNaN_eq (h : x.Amount) : x.isNaN = false := decide_eq_false (Nat.not_lt.mpr h.finite.le)

theorem isInfinite_eq (h : x.Amount) : x.isInfinite = false := beq_eq_false_iff_ne.mpr h.finite.ne

/-- The sum of amounts is rounded from the sum of their units. -/
theorem code_add (hx : x.Amount) (hy : y.Amount) :
    (x + y).code = roundUnits (units x.code + units y.code) 0 1 ∧ 0 ≤ (x + y).rank := by
  change (Binary64.add x y).code = _ ∧ 0 ≤ (Binary64.add x y).rank
  rw [Binary64.add, hx.isNaN_eq, hy.isNaN_eq, hx.isInfinite_eq, hy.isInfinite_eq, hx.signed_eq,
    hy.signed_eq]
  have hxunits := significand_scaled (Nat.min_le_left (shift x.code) (shift y.code))
  have hyunits := significand_scaled (Nat.min_le_right (shift x.code) (shift y.code))
  generalize min (shift x.code) (shift y.code) = low at *
  dsimp only
  have hcast : (significand x.code : Int) * (Nat.pow 2 (shift x.code - low) : Nat) +
      significand y.code * (Nat.pow 2 (shift y.code - low) : Nat) =
      (significand x.code * Nat.pow 2 (shift x.code - low) +
        significand y.code * Nat.pow 2 (shift y.code - low) : Nat) := by push_cast; rfl
  rw [if_neg (by decide), if_neg (by decide), if_neg (by decide), hcast]
  have hsum : (significand x.code * Nat.pow 2 (shift x.code - low) +
      significand y.code * Nat.pow 2 (shift y.code - low)) * 2 ^ low =
      units x.code + units y.code := by rw [Nat.add_mul, hxunits, hyunits]
  generalize significand x.code * Nat.pow 2 (shift x.code - low) +
    significand y.code * Nat.pow 2 (shift y.code - low) = sum at *
  split
  next hzero =>
    obtain rfl : sum = 0 := Int.natCast_eq_zero.mp hzero
    rw [← hsum, Nat.zero_mul, code_ofCode_signed _ (Nat.zero_le _)]
    exact ⟨by decide, rank_ofCode_nonneg (Nat.zero_le _) fun _ => rfl⟩
  next =>
    have hround : roundUnits sum low 1 = roundUnits (units x.code + units y.code) 0 1 :=
      roundUnits_congr Nat.one_pos Nat.one_pos (by rw [hsum, Nat.pow_zero, Nat.mul_one, Nat.mul_one])
    have hsign : decide ((sum : Int) < 0) = false := decide_eq_false (by omega)
    rw [Int.natAbs_natCast, hround, hsign, code_ofCode_signed _ (roundUnits_le ..)]
    exact ⟨rfl, rank_ofCode_nonneg (roundUnits_le ..) nofun⟩

/-- A sum with less in it is not greater. -/
theorem code_add_le (hx : x.Amount) (hy : y.Amount) (hx' : x'.Amount) (hy' : y'.Amount)
    (hxs : x.code ≤ x'.code) (hys : y.code ≤ y'.code) : (x + y).code ≤ (x' + y').code := by
  rw [(hx.code_add hy).1, (hx'.code_add hy').1]
  refine roundUnits_mono Nat.one_pos Nat.one_pos ?_
  refine Nat.mul_le_mul_right _ (Nat.mul_le_mul_right _ ?_)
  exact Nat.add_le_add (units_mono hxs) (units_mono hys)

/-- What is infinite stays so when an amount is added. -/
theorem code_add_infinite (hx : x.code = infiniteCode) (hy : y.Amount) :
    (x + y).code = infiniteCode := by
  have hxNaN : x.isNaN = false := decide_eq_false (Nat.not_lt.mpr hx.le)
  have hxInfinite : x.isInfinite = true := beq_iff_eq.mpr hx
  change (Binary64.add x y).code = _
  rw [Binary64.add, hxNaN, hxInfinite, hy.isNaN_eq, hy.isInfinite_eq]
  exact hx

/-- The product of amounts is not below zero. -/
theorem rank_mul (hx : x.Amount) (hy : y.Amount) : 0 ≤ (x * y).rank := by
  have hcode := code_mul hx.finite hy.finite
  rw [rank]
  split
  next hnegative =>
    have hsign : x.isNegative = true ∨ y.isNegative = true := by
      change (Binary64.mul x y).isNegative = true at hnegative
      rw [Binary64.mul, hx.isNaN_eq, hy.isNaN_eq, hx.isInfinite_eq, hy.isInfinite_eq,
        if_neg (by decide), if_neg (by decide), isNegative_ofCode_signed _ (roundUnits_le ..)]
        at hnegative
      cases hxs : x.isNegative with
      | true => exact .inl rfl
      | false =>
          rw [hxs] at hnegative
          exact .inr (by simpa using hnegative)
    have hzero : units x.code * units y.code = 0 := by
      rcases hsign with hsign | hsign
      · rw [hx.code_eq_zero hsign]
        exact Nat.zero_mul _
      · rw [hy.code_eq_zero hsign]
        exact Nat.mul_zero _
    rw [hcode, hzero]
    decide +kernel
  next => exact Int.natCast_nonneg _

end Amount

end Binary64

end Likeness
