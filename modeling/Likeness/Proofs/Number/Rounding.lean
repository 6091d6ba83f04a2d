import Likeness.Proofs.Number.Weight

/-!
# Likeness.Proofs.Number.Rounding

Rounding is monotone (`Binary64.roundUnits_mono`), and it keeps the integers up to `2 ^ 53`
(`Binary64.units_roundUnits_one`).

A rounded quotient is described by the number of bits dropped from it and by the integer nearest to
what is left. Whenever bits are dropped, 53 of them are left (`Binary64.exists_drop`), so a greater
quotient never drops fewer, and among quotients that drop as many it is the nearest integers that
decide.

For the ratio of a score this means that it is at most one (`Score.ratio_le_one`), and that up to
`2 ^ 53` it is one only where everything was matched (`Score.ratio_eq_one_iff`).
-/

namespace Likeness

namespace Binary64

/-! ### Order -/

/-- Among numbers that are not negative, the numeric order is the order of weights. -/
theorem le_iff_weight_le {x y : Binary64} (hx : x.isNaN = false) (hxpos : 0 ≤ x.rank)
    (hy : y.isNaN = false) (hypos : 0 ≤ y.rank) : x.le y = true ↔ x.weight ≤ y.weight := by
  simp only [le, weight, hx, hy, Bool.not_false, Bool.true_and, decide_eq_true_eq,
    Bool.false_eq_true, if_false]
  omega

/-! ### Half to even -/

/-- The integer nearest to a quotient, and the even one of two equally near. -/
def halfEven (n step : Nat) : Nat :=
  if step < 2 * (n % step) || (2 * (n % step) == step && n / step % 2 == 1) then n / step + 1
  else n / step

theorem div_le_halfEven (n step : Nat) : n / step ≤ halfEven n step := by
  unfold halfEven
  split <;> omega

theorem halfEven_le (n step : Nat) : halfEven n step ≤ n / step + 1 := by
  unfold halfEven
  split <;> omega

theorem halfEven_of_dvd {n step : Nat} (hstep : 0 < step) (h : step ∣ n) :
    halfEven n step = n / step := by
  simp [halfEven, Nat.mod_eq_zero_of_dvd h, hstep.ne]

/-- The floor of a greater quotient is no less. -/
theorem div_le_div_of_mul_le {n step n' step' : Nat} (hstep : 0 < step) (hstep' : 0 < step')
    (h : n * step' ≤ n' * step) : n / step ≤ n' / step' := by
  rw [Nat.le_div_iff_mul_le hstep']
  refine Nat.le_of_mul_le_mul_right ?_ hstep
  calc n / step * step' * step = n / step * step * step' := by ring
    _ ≤ n * step' := Nat.mul_le_mul_right _ (Nat.div_mul_le_self n step)
    _ ≤ n' * step := h

theorem halfEven_mono {n step n' step' : Nat} (hstep : 0 < step) (hstep' : 0 < step')
    (h : n * step' ≤ n' * step) : halfEven n step ≤ halfEven n' step' := by
  rcases Nat.lt_or_eq_of_le (div_le_div_of_mul_le hstep hstep' h) with hfloor | hfloor
  · calc halfEven n step ≤ n / step + 1 := halfEven_le n step
      _ ≤ n' / step' := hfloor
      _ ≤ halfEven n' step' := div_le_halfEven n' step'
  · -- With the same floor, the parts that are left of the two quotients decide.
    have hrest : n % step * step' ≤ n' % step' * step := by
      have hn := Nat.div_add_mod n step
      have hn' := Nat.div_add_mod n' step'
      rw [← hfloor] at hn'
      generalize n / step = floor at hn hn'
      generalize n % step = rest at hn ⊢
      generalize n' % step' = rest' at hn' ⊢
      subst hn hn'
      have hexpand : (step * floor + rest) * step' = step * step' * floor + rest * step' := by ring
      have hexpand' : (step' * floor + rest') * step = step * step' * floor + rest' * step := by ring
      omega
    have hup : step < 2 * (n % step) → step' < 2 * (n' % step') := by
      intro hlt
      refine Nat.lt_of_mul_lt_mul_right (a := step) ?_
      calc step' * step = step * step' := Nat.mul_comm ..
        _ < 2 * (n % step) * step' := Nat.mul_lt_mul_of_pos_right hlt hstep'
        _ = 2 * (n % step * step') := Nat.mul_assoc ..
        _ ≤ 2 * (n' % step' * step) := Nat.mul_le_mul_left 2 hrest
        _ = 2 * (n' % step') * step := (Nat.mul_assoc ..).symm
    have htie : 2 * (n % step) = step → step' ≤ 2 * (n' % step') := by
      intro heq
      refine Nat.le_of_mul_le_mul_right (c := step) ?_ hstep
      calc step' * step = 2 * (n % step) * step' := by rw [heq, Nat.mul_comm]
        _ = 2 * (n % step * step') := Nat.mul_assoc ..
        _ ≤ 2 * (n' % step' * step) := Nat.mul_le_mul_left 2 hrest
        _ = 2 * (n' % step') * step := (Nat.mul_assoc ..).symm
    simp only [halfEven, ← hfloor, Bool.or_eq_true, Bool.and_eq_true, decide_eq_true_eq,
      beq_iff_eq]
    generalize n % step = rest at *
    generalize n' % step' = rest' at *
    generalize n / step = floor at *
    split_ifs with hfirst hsecond hsecond <;> omega

/-! ### Dropping bits -/

/-- A rounded quotient, by the bits dropped from it. What is left has at most 53 bits, and exactly
53 if any were dropped. -/
theorem exists_drop (value lift : Nat) {divisor : Nat} (hd : 0 < divisor) :
    ∃ drop, roundUnits value lift divisor =
        min (drop * Nat.pow 2 52 + halfEven (value * 2 ^ lift) (divisor * 2 ^ drop)) infiniteCode ∧
      value * 2 ^ lift / (divisor * 2 ^ drop) < 2 ^ 53 ∧
      (0 < drop → 2 ^ 52 ≤ value * 2 ^ lift / (divisor * 2 ^ drop)) := by
  generalize hscaled : value * 2 ^ lift = scaled
  generalize hguess : scaled.log2 - divisor.log2 - 53 = guess
  have hpos : ∀ k, 0 < divisor * 2 ^ k := fun k => Nat.mul_pos hd (Nat.two_pow_pos k)
  have hround : roundUnits value lift divisor =
      min ((if scaled / (divisor * 2 ^ guess) < 2 ^ 53 then guess else guess + 1) * Nat.pow 2 52 +
        halfEven scaled
          (divisor * 2 ^ (if scaled / (divisor * 2 ^ guess) < 2 ^ 53 then guess else guess + 1)))
        infiniteCode := by
    simp only [roundUnits, Nat.shiftLeft_eq, hscaled, hguess]
    rfl
  rw [hround]
  by_cases hfits : scaled / (divisor * 2 ^ guess) < 2 ^ 53
  · rw [if_pos hfits]
    refine ⟨guess, rfl, hfits, fun hdropped => ?_⟩
    have hne : scaled ≠ 0 := by
      rintro rfl
      simp at hguess
      omega
    rw [Nat.le_div_iff_mul_le (hpos guess)]
    calc 2 ^ 52 * (divisor * 2 ^ guess)
        ≤ 2 ^ 52 * (2 ^ (divisor.log2 + 1) * 2 ^ guess) :=
          Nat.mul_le_mul_left _ (Nat.mul_le_mul_right _ Nat.lt_log2_self.le)
      _ = 2 ^ (52 + (divisor.log2 + 1 + guess)) := by rw [← Nat.pow_add, ← Nat.pow_add]
      _ ≤ 2 ^ scaled.log2 := Nat.pow_le_pow_right (by decide) (by omega)
      _ ≤ scaled := Nat.log2_self_le hne
  · rw [if_neg hfits]
    have hhalf : scaled / (divisor * 2 ^ (guess + 1)) = scaled / (divisor * 2 ^ guess) / 2 := by
      rw [Nat.div_div_eq_div_mul, Nat.pow_succ, Nat.mul_assoc]
    have hwide : scaled / (divisor * 2 ^ guess) < 2 ^ 54 := by
      rw [Nat.div_lt_iff_lt_mul (hpos guess)]
      calc scaled < 2 ^ (scaled.log2 + 1) := Nat.lt_log2_self
        _ ≤ 2 ^ (54 + (divisor.log2 + guess)) := Nat.pow_le_pow_right (by decide) (by omega)
        _ = 2 ^ 54 * (2 ^ divisor.log2 * 2 ^ guess) := by rw [Nat.pow_add, Nat.pow_add]
        _ ≤ 2 ^ 54 * (divisor * 2 ^ guess) :=
          Nat.mul_le_mul_left _ (Nat.mul_le_mul_right _ (Nat.log2_self_le hd.ne'))
    refine ⟨guess + 1, rfl, ?_, fun _ => ?_⟩ <;> rw [hhalf] <;> omega

/-- The same bits dropped from two quotients leave their order as it is. -/
theorem mul_step_le {scaled divisor scaled' divisor' : Nat}
    (h : scaled * divisor' ≤ scaled' * divisor) (drop : Nat) :
    scaled * (divisor' * 2 ^ drop) ≤ scaled' * (divisor * 2 ^ drop) := by
  calc scaled * (divisor' * 2 ^ drop) = scaled * divisor' * 2 ^ drop := (Nat.mul_assoc ..).symm
    _ ≤ scaled' * divisor * 2 ^ drop := Nat.mul_le_mul_right _ h
    _ = scaled' * (divisor * 2 ^ drop) := Nat.mul_assoc ..

/-- From a greater quotient no fewer bits are dropped: it would have as many left after dropping
fewer. -/
theorem drop_le_of_mul_le {scaled divisor drop scaled' divisor' drop' : Nat} (hd : 0 < divisor)
    (hd' : 0 < divisor') (h : scaled * divisor' ≤ scaled' * divisor)
    (hkept : 0 < drop → 2 ^ 52 ≤ scaled / (divisor * 2 ^ drop))
    (hfits : scaled' / (divisor' * 2 ^ drop') < 2 ^ 53) : drop ≤ drop' := by
  by_contra hmore
  have hdropped := hkept (by omega)
  have hfloor := div_le_div_of_mul_le (Nat.mul_pos hd (Nat.two_pow_pos drop))
    (Nat.mul_pos hd' (Nat.two_pow_pos drop)) (mul_step_le h drop)
  have hless : scaled' / (divisor' * 2 ^ drop) < 2 ^ 52 := by
    rw [Nat.div_lt_iff_lt_mul (Nat.mul_pos hd' (Nat.two_pow_pos drop))]
    rw [Nat.div_lt_iff_lt_mul (Nat.mul_pos hd' (Nat.two_pow_pos drop'))] at hfits
    calc scaled' < 2 ^ 53 * (divisor' * 2 ^ drop') := hfits
      _ = 2 ^ 52 * (divisor' * 2 ^ (drop' + 1)) := by ring
      _ ≤ 2 ^ 52 * (divisor' * 2 ^ drop) := Nat.mul_le_mul_left _
        (Nat.mul_le_mul_left _ (Nat.pow_le_pow_right (by decide) (by omega)))
  omega

/-- **Rounding is monotone.** -/
theorem roundUnits_mono {value lift divisor value' lift' divisor' : Nat} (hd : 0 < divisor)
    (hd' : 0 < divisor') (h : value * 2 ^ lift * divisor' ≤ value' * 2 ^ lift' * divisor) :
    roundUnits value lift divisor ≤ roundUnits value' lift' divisor' := by
  obtain ⟨drop, heq, hlt, hge⟩ := exists_drop value lift hd
  obtain ⟨drop', heq', hlt', hge'⟩ := exists_drop value' lift' hd'
  have hpos : ∀ k, 0 < divisor * 2 ^ k := fun k => Nat.mul_pos hd (Nat.two_pow_pos k)
  have hpos' : ∀ k, 0 < divisor' * 2 ^ k := fun k => Nat.mul_pos hd' (Nat.two_pow_pos k)
  generalize value * 2 ^ lift = scaled at *
  generalize value' * 2 ^ lift' = scaled' at *
  have hdrop : drop ≤ drop' := drop_le_of_mul_le hd hd' h hge hlt'
  rw [heq, heq']
  refine min_le_min_right _ ?_
  rcases Nat.lt_or_eq_of_le hdrop with hfewer | rfl
  · have hkept := hge' (by omega)
    have hleft := halfEven_le scaled (divisor * 2 ^ drop)
    have hright := div_le_halfEven scaled' (divisor' * 2 ^ drop')
    have hunit : Nat.pow 2 52 = 2 ^ 52 := rfl
    calc drop * Nat.pow 2 52 + halfEven scaled (divisor * 2 ^ drop)
        ≤ (drop + 1) * Nat.pow 2 52 + 2 ^ 52 := by rw [Nat.add_mul, hunit]; omega
      _ ≤ drop' * Nat.pow 2 52 + 2 ^ 52 :=
        Nat.add_le_add_right (Nat.mul_le_mul_right _ hfewer) _
      _ ≤ drop' * Nat.pow 2 52 + halfEven scaled' (divisor' * 2 ^ drop') := by omega
  · exact Nat.add_le_add_left (halfEven_mono (hpos drop) (hpos' drop) (mul_step_le h drop)) _

/-- Equal quotients are rounded to the same code. -/
theorem roundUnits_congr {value lift divisor value' lift' divisor' : Nat} (hd : 0 < divisor)
    (hd' : 0 < divisor') (h : value * 2 ^ lift * divisor' = value' * 2 ^ lift' * divisor) :
    roundUnits value lift divisor = roundUnits value' lift' divisor' :=
  Nat.le_antisymm (roundUnits_mono hd hd' h.le) (roundUnits_mono hd' hd h.ge)

/-- The numbers nearest to naturals are in order. -/
theorem rank_ofNat_mono {m n : Nat} (h : m ≤ n) : (ofNat m).rank ≤ (ofNat n).rank := by
  have hrank (k : Nat) : (ofNat k).rank = (roundUnits k unitPlaces 1 : Nat) := by
    have hlt := lt_of_le_of_lt (roundUnits_le k unitPlaces 1) infiniteCode_lt
    rw [ofNat, ofQuotient, roundQuotient, rank, isNegative_ofCode hlt, code_ofCode hlt]
    rfl
  rw [hrank, hrank]
  refine Int.ofNat_le.mpr (roundUnits_mono Nat.one_pos Nat.one_pos ?_)
  exact Nat.mul_le_mul_right _ (Nat.mul_le_mul_right _ h)

/-- Words are far from infinite. -/
theorem roundUnits_one_lt {n : Nat} (h : n < 2 ^ 64) : roundUnits n unitPlaces 1 < infiniteCode :=
  calc roundUnits n unitPlaces 1 ≤ roundUnits (2 ^ 64) unitPlaces 1 :=
        roundUnits_mono Nat.one_pos Nat.one_pos
          (Nat.mul_le_mul_right 1 (Nat.mul_le_mul_right _ h.le))
    _ < infiniteCode := by decide +kernel

theorem isNaN_ofNat (n : Nat) : (ofNat n).isNaN = false := by
  have hle := roundUnits_le n unitPlaces 1
  rw [ofNat, ofQuotient, roundQuotient, isNaN, code_ofCode (lt_of_le_of_lt hle infiniteCode_lt)]
  exact decide_eq_false (Nat.not_lt.mpr hle)

/-- What lies below a natural lies below every greater one. -/
theorem lt_ofNat_mono {x : Binary64} {m n : Nat} (h : m ≤ n) (hlt : x.lt (ofNat m) = true) :
    x.lt (ofNat n) = true := by
  simp only [lt, Bool.and_eq_true, isNaN_ofNat, decide_eq_true_eq] at hlt ⊢
  exact ⟨hlt.1, lt_of_lt_of_le hlt.2 (rank_ofNat_mono h)⟩

/-- What lies above a natural lies above every smaller one. -/
theorem ofNat_lt_mono {x : Binary64} {m n : Nat} (h : m ≤ n) (hlt : (ofNat n).lt x = true) :
    (ofNat m).lt x = true := by
  simp only [lt, Bool.and_eq_true, isNaN_ofNat, decide_eq_true_eq] at hlt ⊢
  exact ⟨hlt.1, lt_of_le_of_lt (rank_ofNat_mono h) hlt.2⟩

/-! ### The value of a code -/

/-- The number of units that a finite code stands for. -/
def units (code : Nat) : Nat := significand code * 2 ^ shift code

theorem units_subnormal {c : Nat} (h : c < Nat.pow 2 52) : units c = c := by
  simp [units, significand, shift, h, Nat.div_eq_of_lt h]

theorem units_normal {drop digits : Nat} (hlow : Nat.pow 2 52 ≤ digits)
    (hhigh : digits < Nat.pow 2 53) : units (drop * Nat.pow 2 52 + digits) = digits * 2 ^ drop := by
  have hdouble : Nat.pow 2 53 = Nat.pow 2 52 + Nat.pow 2 52 := by decide
  generalize hunit : Nat.pow 2 52 = unit at *
  have hpos : 0 < unit := hunit ▸ by decide
  obtain ⟨fraction, rfl⟩ := Nat.exists_eq_add_of_le hlow
  have hfraction : fraction < unit := by omega
  have hsplit : drop * unit + (unit + fraction) = unit * (drop + 1) + fraction := by ring
  have hnormal : ¬ unit * (drop + 1) + fraction < unit := by
    have := Nat.le_mul_of_pos_right unit (Nat.succ_pos drop)
    omega
  rw [units, significand, shift, hunit, hsplit, if_neg hnormal, Nat.mul_add_mod,
    Nat.mod_eq_of_lt hfraction, Nat.mul_add_div hpos, Nat.div_eq_of_lt hfraction, Nat.add_zero,
    Nat.add_sub_cancel, Nat.add_comm fraction]

/-- A code that is not too small, by the bits dropped and the digits kept. -/
theorem exists_normal {c : Nat} (h : Nat.pow 2 52 ≤ c) : ∃ drop digits,
    c = drop * Nat.pow 2 52 + digits ∧ Nat.pow 2 52 ≤ digits ∧ digits < Nat.pow 2 53 := by
  have hdouble : Nat.pow 2 53 = Nat.pow 2 52 + Nat.pow 2 52 := by decide
  have hpos : 0 < Nat.pow 2 52 := by decide
  have hsplit := Nat.div_add_mod c (Nat.pow 2 52)
  have hmod := Nat.mod_lt c hpos
  have hquotient := Nat.div_pos h hpos
  generalize Nat.pow 2 52 = unit at *
  obtain ⟨drop, hdrop⟩ := Nat.exists_eq_add_of_le' hquotient
  refine ⟨drop, unit + c % unit, ?_, Nat.le_add_right .., by omega⟩
  calc c = unit * (drop + 1) + c % unit := by rw [← hdrop, hsplit]
    _ = drop * unit + (unit + c % unit) := by ring

theorem units_mono {c d : Nat} (h : c ≤ d) : units c ≤ units d := by
  have hdouble : Nat.pow 2 53 = 2 * Nat.pow 2 52 := by decide
  rcases Nat.lt_or_ge d (Nat.pow 2 52) with hd | hd
  · rw [units_subnormal hd, units_subnormal (lt_of_le_of_lt h hd)]
    exact h
  obtain ⟨drop, digits, rfl, hlow, hhigh⟩ := exists_normal hd
  rw [units_normal hlow hhigh]
  rcases Nat.lt_or_ge c (Nat.pow 2 52) with hc | hc
  · rw [units_subnormal hc]
    exact le_trans (hc.le.trans hlow) (Nat.le_mul_of_pos_right _ (Nat.two_pow_pos _))
  obtain ⟨drop', digits', rfl, hlow', hhigh'⟩ := exists_normal hc
  rw [units_normal hlow' hhigh']
  generalize Nat.pow 2 52 = unit at *
  rw [hdouble] at hhigh hhigh'
  rcases Nat.lt_trichotomy drop' drop with hless | rfl | hmore
  · -- One bit more dropped outweighs all digits.
    calc digits' * 2 ^ drop' ≤ 2 * unit * 2 ^ drop' := Nat.mul_le_mul_right _ hhigh'.le
      _ = unit * 2 ^ (drop' + 1) := by ring
      _ ≤ unit * 2 ^ drop := Nat.mul_le_mul_left _ (Nat.pow_le_pow_right (by decide) hless)
      _ ≤ digits * 2 ^ drop := Nat.mul_le_mul_right _ hlow
  · exact Nat.mul_le_mul_right _ (Nat.le_of_add_le_add_left h)
  · have := Nat.mul_le_mul_right unit hmore
    rw [Nat.succ_eq_add_one, Nat.add_mul] at this
    omega

/-- An integer of up to 53 bits is not rounded. -/
theorem units_roundUnits_one {n lift : Nat} (hn : 0 < n) (hsmall : n ≤ 2 ^ 53) (hlift : 53 ≤ lift)
    (hfinite : lift ≤ 1100) : units (roundUnits n lift 1) = n * 2 ^ lift := by
  obtain ⟨drop, heq, hlt, hge⟩ := exists_drop n lift Nat.one_pos
  rw [Nat.one_mul] at heq hlt hge
  have hdropped : 0 < drop := by
    by_contra hzero
    obtain rfl : drop = 0 := by omega
    rw [Nat.pow_zero, Nat.div_one] at hlt
    have hlarge : 2 ^ 53 ≤ n * 2 ^ lift :=
      le_trans (Nat.pow_le_pow_right (by decide) hlift) (Nat.le_mul_of_pos_left _ hn)
    omega
  have hkept := hge hdropped
  rw [Nat.le_div_iff_mul_le (Nat.two_pow_pos drop)] at hkept
  have hdrop : drop ≤ lift + 1 := by
    have hpow : 2 ^ (52 + drop) ≤ 2 ^ (53 + lift) := by
      rw [Nat.pow_add, Nat.pow_add]
      exact hkept.trans (Nat.mul_le_mul_right _ hsmall)
    have := (Nat.pow_le_pow_iff_right (by decide)).mp hpow
    omega
  have hdvd : 2 ^ drop ∣ n * 2 ^ lift := by
    rcases Nat.lt_or_eq_of_le hdrop with hless | rfl
    · exact Dvd.dvd.mul_left (Nat.pow_dvd_pow 2 (by omega)) n
    · -- Only `2 ^ 53` itself has a bit more to drop, and that bit is zero.
      have hlarge : 2 ^ 53 ≤ n := by
        refine Nat.le_of_mul_le_mul_right ?_ (Nat.two_pow_pos lift)
        calc 2 ^ 53 * 2 ^ lift = 2 ^ 52 * 2 ^ (lift + 1) := by ring
          _ ≤ n * 2 ^ lift := hkept
      obtain rfl : n = 2 ^ 53 := by omega
      exact ⟨2 ^ 52, by ring⟩
  rw [halfEven_of_dvd (Nat.two_pow_pos drop) hdvd] at heq
  rw [← Nat.le_div_iff_mul_le (Nat.two_pow_pos drop)] at hkept
  have hfits : drop * Nat.pow 2 52 + n * 2 ^ lift / 2 ^ drop ≤ infiniteCode := by
    have hinf : infiniteCode = 2047 * Nat.pow 2 52 := by decide
    have hdigits : n * 2 ^ lift / 2 ^ drop ≤ 2 * Nat.pow 2 52 := hlt.le
    have hscaled := Nat.mul_le_mul_right (Nat.pow 2 52) (show drop ≤ 1101 by omega)
    rw [hinf]
    generalize Nat.pow 2 52 = unit at *
    omega
  rw [heq, Nat.min_eq_left hfits, units_normal hkept hlt, Nat.div_mul_cancel hdvd]

/-! ### Quotients up to one -/

theorem code_one : roundUnits 1 unitPlaces 1 = one.code := by decide +kernel

theorem code_below_one : roundUnits (2 ^ 53 - 1) unitPlaces (2 ^ 53) + 1 = one.code := by
  decide +kernel

theorem roundUnits_le_one {value divisor : Nat} (hd : 0 < divisor) (h : value ≤ divisor) :
    roundUnits value unitPlaces divisor ≤ one.code := by
  rw [← code_one]
  refine roundUnits_mono hd Nat.one_pos ?_
  rw [Nat.mul_one, Nat.one_mul, Nat.mul_comm]
  exact Nat.mul_le_mul_left _ h

theorem roundUnits_self {n : Nat} (hn : 0 < n) : roundUnits n unitPlaces n = one.code := by
  rw [← code_one]
  exact roundUnits_congr hn Nat.one_pos (by ring)

/-- A quotient that falls short of one by a part in `2 ^ 53` does not round to one. -/
theorem roundUnits_lt_one {value divisor : Nat} (hd : 0 < divisor)
    (h : value * 2 ^ 53 ≤ (2 ^ 53 - 1) * divisor) :
    roundUnits value unitPlaces divisor < one.code := by
  have hmono : roundUnits value unitPlaces divisor ≤
      roundUnits (2 ^ 53 - 1) unitPlaces (2 ^ 53) := by
    refine roundUnits_mono hd (Nat.two_pow_pos 53) ?_
    calc value * 2 ^ unitPlaces * 2 ^ 53 = value * 2 ^ 53 * 2 ^ unitPlaces :=
          Nat.mul_right_comm ..
      _ ≤ (2 ^ 53 - 1) * divisor * 2 ^ unitPlaces := Nat.mul_le_mul_right _ h
      _ = (2 ^ 53 - 1) * 2 ^ unitPlaces * divisor := Nat.mul_right_comm ..
  have hone := code_below_one
  omega

/-- A quotient of two words is rounded from two numbers that stand for them. -/
theorem div_ofNat {m n : Nat} (hm : m < 2 ^ 64) (hpos : 0 < n) (hn : n < 2 ^ 64) :
    ∃ value divisor common, 0 < divisor ∧
      ofNat m / ofNat n = ofCode false (roundUnits value unitPlaces divisor) ∧
      value * 2 ^ common = units (roundUnits m unitPlaces 1) ∧
      divisor * 2 ^ common = units (roundUnits n unitPlaces 1) := by
  have hcode : 0 < roundUnits n unitPlaces 1 :=
    roundUnits_pos Nat.one_pos (Nat.mul_pos hpos (Nat.two_pow_pos _))
  change ∃ value divisor common, 0 < divisor ∧ ofCode false (roundUnits m unitPlaces 1) /
    ofCode false (roundUnits n unitPlaces 1) = _ ∧ _
  rw [div_ofCode (roundUnits_one_lt hm) (roundUnits_one_lt hn) hcode]
  generalize roundUnits m unitPlaces 1 = c
  generalize roundUnits n unitPlaces 1 = d at hcode
  refine ⟨_, _, min (shift c) (shift d), Nat.mul_pos (significand_pos hcode) (Nat.two_pow_pos _),
    rfl, ?_, ?_⟩
  · rw [Nat.mul_assoc, ← Nat.pow_add, Nat.sub_add_cancel (Nat.min_le_left ..), units]
  · rw [Nat.mul_assoc, ← Nat.pow_add, Nat.sub_add_cancel (Nat.min_le_right ..), units]

theorem roundUnits_le_one_of_units {m n value divisor common : Nat} (hd : 0 < divisor) (hle : m ≤ n)
    (hvalue : value * 2 ^ common = units (roundUnits m unitPlaces 1))
    (hdivisor : divisor * 2 ^ common = units (roundUnits n unitPlaces 1)) :
    roundUnits value unitPlaces divisor ≤ one.code := by
  have hcodes : roundUnits m unitPlaces 1 ≤ roundUnits n unitPlaces 1 :=
    roundUnits_mono Nat.one_pos Nat.one_pos (Nat.mul_le_mul_right 1 (Nat.mul_le_mul_right _ hle))
  have hunits := units_mono hcodes
  rw [← hvalue, ← hdivisor] at hunits
  exact roundUnits_le_one hd (Nat.le_of_mul_le_mul_right hunits (Nat.two_pow_pos common))

/-- A quotient of two words, the first no greater than the second, has no sign and a code up to that
of one. -/
theorem exists_div_ofNat_code {m n : Nat} (hle : m ≤ n) (hpos : 0 < n) (hn : n < 2 ^ 64) :
    ∃ code, ofNat m / ofNat n = ofCode false code ∧ code ≤ one.code := by
  obtain ⟨value, divisor, common, hd, hquotient, hvalue, hdivisor⟩ :=
    div_ofNat (lt_of_le_of_lt hle hn) hpos hn
  exact ⟨_, hquotient, roundUnits_le_one_of_units hd hle hvalue hdivisor⟩

end Binary64

namespace Score

open Binary64

/-! ### The ratio of a score -/

/-- A ratio is the rounded quotient of two numbers that stand for the parts of the score. -/
theorem ratio_eq {s : Score} (hm : 0 < s.matched) (hle : s.matched ≤ s.total)
    (ht : s.total < 2 ^ 63) : ∃ value divisor common, 0 < divisor ∧
      s.ratio = ofCode false (roundUnits value unitPlaces divisor) ∧
      value * 2 ^ common = units (roundUnits s.matched unitPlaces 1) ∧
      divisor * 2 ^ common = units (roundUnits s.total unitPlaces 1) := by
  have hmatched := Int64.toInt_ofNat_of_lt (lt_of_le_of_lt hle ht)
  have htotal := Int64.toInt_ofNat_of_lt ht
  have hne : Int64.ofNat s.total ≠ 0 := by
    intro h
    rw [h, Int64.toInt_zero] at htotal
    omega
  have hratio : s.ratio = ofNat s.matched / ofNat s.total := by
    simp only [ratio, fraction, Fraction.ratio, hne, if_false, hmatched, htotal, ofInt_natCast]
    rfl
  rw [hratio]
  exact div_ofNat (by omega) (by omega) (by omega)

/-- A ratio has no sign and a code up to that of one. -/
theorem exists_ratio_code {s : Score} (hm : 0 < s.matched) (hle : s.matched ≤ s.total)
    (ht : s.total < 2 ^ 63) : ∃ code, s.ratio = ofCode false code ∧ code ≤ one.code ∧
      (s.matched = s.total → code = one.code) ∧
      (s.matched < s.total → s.total ≤ 2 ^ 53 → code < one.code) := by
  obtain ⟨value, divisor, common, hd, hratio, hvalue, hdivisor⟩ := ratio_eq hm hle ht
  have hcommon := Nat.two_pow_pos common
  refine ⟨_, hratio, roundUnits_le_one_of_units hd hle hvalue hdivisor, fun hsame => ?_,
    fun hless hsmall => ?_⟩
  · rw [hsame, ← hdivisor] at hvalue
    rw [Nat.eq_of_mul_eq_mul_right hcommon hvalue]
    exact roundUnits_self hd
  · -- Both parts are exact, and integers of 53 bits are no closer to each other than this.
    rw [units_roundUnits_one hm (by omega) (by decide) (by decide)] at hvalue
    rw [units_roundUnits_one (by omega) hsmall (by decide) (by decide)] at hdivisor
    refine roundUnits_lt_one hd (Nat.le_of_mul_le_mul_right ?_ hcommon)
    have hparts : s.matched * 2 ^ 53 ≤ (2 ^ 53 - 1) * s.total := by omega
    calc value * 2 ^ 53 * 2 ^ common = value * 2 ^ common * 2 ^ 53 := Nat.mul_right_comm ..
      _ = s.matched * 2 ^ 53 * 2 ^ unitPlaces := by rw [hvalue, Nat.mul_right_comm]
      _ ≤ (2 ^ 53 - 1) * s.total * 2 ^ unitPlaces := Nat.mul_le_mul_right _ hparts
      _ = (2 ^ 53 - 1) * divisor * 2 ^ common := by
        rw [Nat.mul_assoc, ← hdivisor, Nat.mul_assoc]

theorem code_one_le : one.code ≤ infiniteCode := by decide

theorem weight_le_one {s : Score} (hm : 0 < s.matched) (hle : s.matched ≤ s.total)
    (ht : s.total < 2 ^ 63) : s.weight ≤ one.weight := by
  obtain ⟨code, hratio, hcode, -⟩ := exists_ratio_code hm hle ht
  rw [weight, hratio, weight_ofCode (hcode.trans code_one_le)]
  exact hcode

/-- **A ratio is at most one.** -/
theorem ratio_le_one {s : Score} (hm : 0 < s.matched) (hle : s.matched ≤ s.total)
    (ht : s.total < 2 ^ 63) : s.ratio.le one = true := by
  obtain ⟨hnumber, hpos⟩ := of_weight_pos (weight_pos hm hle ht)
  rw [le_iff_weight_le hnumber hpos (by decide) (by decide)]
  exact weight_le_one hm hle ht

/-- **A ratio is one when everything is matched**, and only then, while the parts have no more than
53 bits. -/
theorem ratio_eq_one_iff {s : Score} (hm : 0 < s.matched) (hle : s.matched ≤ s.total)
    (ht : s.total ≤ 2 ^ 53) : s.ratio = one ↔ s.matched = s.total := by
  obtain ⟨code, hratio, hcode, hsame, hless⟩ := exists_ratio_code hm hle (by omega)
  have hlt := lt_of_le_of_lt (hcode.trans code_one_le) infiniteCode_lt
  constructor
  · intro hone
    have hcodes : code = one.code := by rw [← hone, hratio, code_ofCode hlt]
    by_contra hne
    exact (hless (by omega) ht).ne hcodes
  · intro heq
    rw [hratio, hsame heq]
    decide

theorem weight_eq_one_iff {s : Score} (hm : 0 < s.matched) (hle : s.matched ≤ s.total)
    (ht : s.total ≤ 2 ^ 53) : s.weight = one.weight ↔ s.matched = s.total := by
  rw [← ratio_eq_one_iff hm hle ht]
  constructor
  · intro hweight
    obtain ⟨code, hratio, hcode, -⟩ := exists_ratio_code hm hle (by omega)
    rw [weight, hratio, weight_ofCode (hcode.trans code_one_le)] at hweight
    rw [hratio, hweight]
    decide
  · intro hratio
    rw [weight, hratio]

end Score

end Likeness
