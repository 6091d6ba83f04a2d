import Likeness.Number.Decimal
import Likeness.Proofs.Number.Rounding

/-!
# Likeness.Proofs.Number.Shortest

The shortest decimal of a finite number reads back as that number (`Binary64.ofDecimal_shortest`).

The proof has two halves that meet in the cell of a number. Every quotient inside the cell rounds to
the number (`Binary64.roundUnits_of_contains`), so any decimal inside it reads back as the number,
however its zeros are written (`Binary64.ofDecimal_of_contains`). And the walk over the grids ends
at a decimal inside the cell (`Binary64.contains_shortest`): a grid point is only accepted there, and
a grid that is eighteen steps finer than the first one is finer than the cell.
-/

namespace Likeness

/-! ### Decimals in quarter units -/

theorem Binary64.quarterUnits_pos : 0 < quarterUnits := by
  rw [quarterUnits, Nat.pow_eq]
  exact Nat.two_pow_pos _

namespace Decimal

open Binary64 (quarterUnits quarterUnits_pos)

/-- Numerator of `10 ^ exponent` in quarter units. -/
def step (exponent : Int) : Nat :=
  if exponent < 0 then quarterUnits else quarterUnits * Nat.pow 10 exponent.natAbs

/-- Denominator of `10 ^ exponent`. -/
def scale (exponent : Int) : Nat := if exponent < 0 then Nat.pow 10 exponent.natAbs else 1

theorem step_natCast (n : Nat) : step n = quarterUnits * 10 ^ n := if_neg (by omega)

theorem scale_natCast (n : Nat) : scale n = 1 := if_neg (by omega)

theorem step_neg (n : Nat) : step (-n) = quarterUnits := by
  cases n with
  | zero => rw [show -((0 : Nat) : Int) = (0 : Nat) from rfl, step_natCast, Nat.pow_zero, Nat.mul_one]
  | succ n => exact if_pos (by omega)

theorem scale_neg (n : Nat) : scale (-n) = 10 ^ n := by
  cases n with
  | zero => rfl
  | succ n =>
      rw [scale, if_pos (by omega), Int.natAbs_neg, Int.natAbs_natCast]
      rfl

theorem scale_pos (exponent : Int) : 0 < scale exponent := by
  unfold scale
  split
  · exact Nat.pow_pos (by decide)
  · exact Nat.one_pos

theorem step_pos (exponent : Int) : 0 < step exponent := by
  unfold step
  split
  · exact quarterUnits_pos
  · exact Nat.mul_pos quarterUnits_pos (Nat.pow_pos (by decide))

/-- The next coarser grid has ten times the step. -/
theorem step_succ (exponent : Int) :
    10 * step exponent * scale (exponent + 1) = step (exponent + 1) * scale exponent := by
  obtain ⟨n, rfl | rfl⟩ := exponent.eq_nat_or_neg
  · rw [show (n : Int) + 1 = ((n + 1 : Nat) : Int) by omega, step_natCast, step_natCast,
      scale_natCast, scale_natCast]
    ring
  · cases n with
    | zero =>
        rw [show -((0 : Nat) : Int) + 1 = ((1 : Nat) : Int) by omega, step_neg, scale_neg,
          step_natCast, scale_natCast]
        ring
    | succ n =>
        rw [show -((n + 1 : Nat) : Int) + 1 = -(n : Int) by omega, step_neg, step_neg, scale_neg,
          scale_neg]
        ring

/-- A grid that is coarser by some digits has a step that is greater by as many zeros. -/
theorem step_add (exponent : Int) (n : Nat) :
    step (exponent + n) * scale exponent = 10 ^ n * step exponent * scale (exponent + n) := by
  induction n with
  | zero => simp [Nat.mul_comm]
  | succ n ih =>
      have hsucc := step_succ (exponent + n)
      rw [Int.natCast_succ, ← Int.add_assoc]
      refine Nat.eq_of_mul_eq_mul_right (scale_pos (exponent + n)) ?_
      calc step (exponent + n + 1) * scale exponent * scale (exponent + n)
          = step (exponent + n + 1) * scale (exponent + n) * scale exponent := Nat.mul_right_comm ..
        _ = 10 * scale (exponent + n + 1) * (step (exponent + n) * scale exponent) := by
          rw [← hsucc]; ring
        _ = 10 ^ (n + 1) * step exponent * scale (exponent + n + 1) * scale (exponent + n) := by
          rw [ih]; ring

end Decimal

namespace Binary64

open Decimal (step scale step_pos scale_pos)

/-! ### Cells -/

/-- The quotient of two naturals, in quarter units, lies in the cell. -/
def Cell.Contains (c : Cell) (value divisor : Nat) : Prop :=
  (c.low * divisor < value ∨ c.closed = true ∧ c.low * divisor = value) ∧
    (value < c.high * divisor ∨ c.closed = true ∧ value = c.high * divisor)

/-- Whether a decimal lies in the cell. -/
def Cell.ContainsDecimal (c : Cell) (digits : Nat) (exponent : Int) : Prop :=
  c.Contains (digits * step exponent) (scale exponent)

namespace Cell

variable {c : Cell}

theorem Contains.low_le {value divisor : Nat} (h : c.Contains value divisor) :
    c.low * divisor ≤ value := by
  rcases h.1 with h | ⟨-, h⟩ <;> omega

theorem Contains.le_high {value divisor : Nat} (h : c.Contains value divisor) :
    value ≤ c.high * divisor := by
  rcases h.2 with h | ⟨-, h⟩ <;> omega

/-- Only the quotient matters. -/
theorem Contains.congr {value divisor value' divisor' : Nat} (hd : 0 < divisor)
    (hd' : 0 < divisor') (heq : value * divisor' = value' * divisor)
    (h : c.Contains value divisor) : c.Contains value' divisor' := by
  have hlow : c.low * divisor' * divisor = c.low * divisor * divisor' := Nat.mul_right_comm ..
  have hhigh : c.high * divisor' * divisor = c.high * divisor * divisor' := Nat.mul_right_comm ..
  refine ⟨h.1.imp (fun hlt => ?_) (And.imp_right fun hsame => ?_),
    h.2.imp (fun hlt => ?_) (And.imp_right fun hsame => ?_)⟩
  · refine Nat.lt_of_mul_lt_mul_right (a := divisor) ?_
    rw [hlow, ← heq]
    exact Nat.mul_lt_mul_of_pos_right hlt hd'
  · refine Nat.eq_of_mul_eq_mul_right hd ?_
    rw [hlow, ← heq, hsame]
  · refine Nat.lt_of_mul_lt_mul_right (a := divisor) ?_
    rw [hhigh, ← heq]
    exact Nat.mul_lt_mul_of_pos_right hlt hd'
  · refine Nat.eq_of_mul_eq_mul_right hd ?_
    rw [hhigh, ← heq, hsame]

/-- Zeros of the digits can be moved into the exponent, and out of it. -/
theorem containsDecimal_shift (digits : Nat) (exponent : Int) (zeros : Nat) :
    c.ContainsDecimal digits (exponent + zeros) ↔
      c.ContainsDecimal (digits * 10 ^ zeros) exponent := by
  have heq : digits * step (exponent + zeros) * scale exponent =
      digits * 10 ^ zeros * step exponent * scale (exponent + zeros) := by
    rw [Nat.mul_assoc, Decimal.step_add]
    ring
  exact ⟨.congr (scale_pos _) (scale_pos _) heq, .congr (scale_pos _) (scale_pos _) heq.symm⟩

theorem containsDecimal_trim (places : Nat) (d : Decimal) (h : c.ContainsDecimal d.digits d.exponent) :
    c.ContainsDecimal (d.trim places).digits (d.trim places).exponent := by
  induction places generalizing d with
  | zero => exact h
  | succ places ih =>
      rw [Decimal.trim]
      split
      next hzero =>
        refine ih _ ((containsDecimal_shift _ _ 1).mpr ?_)
        rwa [Nat.pow_one, Nat.div_mul_cancel (Nat.dvd_of_mod_eq_zero hzero.2)]
      next => exact h

/-! ### The walk over the grids -/

/-- The number itself lies strictly between the ends of its cell. -/
structure Proper (c : Cell) : Prop where
  low : c.low < c.value
  high : c.value < c.high

/-- An accepted grid point lies in the cell. -/
theorem containsDecimal_of_onGrid? (hc : c.Proper) {exponent : Int} {digits : Nat}
    (h : c.onGrid? exponent = some digits) : c.ContainsDecimal digits exponent := by
  have hlow := Nat.mul_lt_mul_of_pos_right hc.low (scale_pos exponent)
  have hhigh := Nat.mul_lt_mul_of_pos_right hc.high (scale_pos exponent)
  have hsplit := Nat.div_add_mod (c.value * scale exponent) (step exponent)
  have hrest := Nat.mod_lt (c.value * scale exponent) (step_pos exponent)
  unfold onGrid? at h
  dsimp only at h
  rw [← scale, ← step] at h
  unfold ContainsDecimal Contains
  generalize step exponent = step at *
  generalize scale exponent = scale at *
  generalize c.value * scale = value at *
  generalize c.low * scale = low at *
  generalize c.high * scale = high at *
  generalize value / step = below at *
  generalize value % step = rest at *
  have hnext : (below + 1) * step = step * below + step := by ring
  simp only [hnext, Nat.mul_comm below step, Bool.and_eq_true, Bool.or_eq_true, decide_eq_true_eq,
    beq_iff_eq] at h
  split_ifs at h <;> simp only [Option.some.injEq] at h <;>
    simp only [← h, hnext, Nat.mul_comm below step] <;> grind

/-- A grid that is finer than the upper half of the cell has a point in it. -/
theorem onGrid?_ne_none {exponent : Int}
    (h : c.value * scale exponent + step exponent < c.high * scale exponent) :
    c.onGrid? exponent ≠ none := by
  have hsplit := Nat.div_add_mod (c.value * scale exponent) (step exponent)
  unfold onGrid?
  dsimp only
  rw [← scale, ← step]
  generalize step exponent = step at *
  generalize scale exponent = scale at *
  generalize c.value * scale = value at *
  generalize c.high * scale = high at *
  generalize value / step = below at *
  generalize value % step = rest at *
  have hnext : (below + 1) * step = step * below + step := by ring
  have hhit : decide ((below + 1) * step < high) = true := decide_eq_true (by omega)
  simp only [hhit, Bool.true_or, Bool.and_true, if_true]
  split_ifs <;> simp

theorem reaches_iff {exponent : Int} :
    c.reaches exponent = true ↔ step exponent ≤ c.value * scale exponent := by
  unfold reaches step scale
  split <;> simp

/-- The walk ends inside the cell once one of its grids is fine enough. -/
theorem containsDecimal_search (hc : c.Proper) {steps k : Nat} {exponent : Int} (hk : k < steps)
    (hreach : step (exponent - k) ≤ c.value * scale (exponent - k))
    (hfine : c.value * scale (exponent - k) + step (exponent - k) < c.high * scale (exponent - k)) :
    c.ContainsDecimal (c.search steps exponent).digits (c.search steps exponent).exponent := by
  induction steps generalizing k exponent with
  | zero => omega
  | succ steps ih =>
      have hlater (hlast : 0 < k) :
          c.ContainsDecimal (c.search steps (exponent - 1)).digits
            (c.search steps (exponent - 1)).exponent := by
        have hnext : exponent - 1 - ((k - 1 : Nat) : Int) = exponent - k := by omega
        exact ih (k := k - 1) (by omega) (by rwa [hnext]) (by rwa [hnext])
      rw [search]
      split
      next =>
        cases hgrid : c.onGrid? exponent with
        | some digits => exact containsDecimal_of_onGrid? hc hgrid
        | none =>
            refine hlater (Nat.pos_of_ne_zero ?_)
            rintro rfl
            rw [Int.natCast_zero, Int.sub_zero] at hfine
            exact onGrid?_ne_none hfine hgrid
      next hshort =>
        refine hlater (Nat.pos_of_ne_zero ?_)
        rintro rfl
        rw [Int.natCast_zero, Int.sub_zero] at hreach
        exact hshort (reaches_iff.mpr hreach)

end Cell

/-! ### The cell of a code -/

theorem cell_value (code : Nat) : (cell code).value = 4 * units code := by
  simp only [cell, units, Nat.shiftLeft_eq, Nat.mul_assoc]

theorem cell_high (code : Nat) : (cell code).high = (4 * significand code + 2) * 2 ^ shift code := by
  simp only [cell, Nat.shiftLeft_eq]

theorem cell_proper {code : Nat} (h : 0 < code) : (cell code).Proper := by
  have hpos := significand_pos h
  have hpow := Nat.two_pow_pos (shift code)
  constructor
  · simp only [cell, Nat.shiftLeft_eq]
    refine Nat.mul_lt_mul_of_pos_right ?_ hpow
    split <;> omega
  · simp only [cell, Nat.shiftLeft_eq]
    exact Nat.mul_lt_mul_of_pos_right (by omega) hpow

/-- A code, by the bits dropped and the digits kept. -/
theorem code_eq (code : Nat) : code = shift code * Nat.pow 2 52 + significand code := by
  have hpos : 0 < Nat.pow 2 52 := by decide
  have hsplit := Nat.div_add_mod' code (Nat.pow 2 52)
  unfold shift significand
  split
  next hsmall => rw [Nat.div_eq_of_lt hsmall]; omega
  next hlarge =>
    obtain ⟨n, hn⟩ := Nat.exists_eq_add_of_le' (Nat.div_pos (Nat.not_lt.mp hlarge) hpos)
    rw [hn, Nat.add_mul] at hsplit
    rw [hn, Nat.add_sub_cancel]
    omega

theorem le_significand {code : Nat} (h : 0 < shift code) : Nat.pow 2 52 ≤ significand code := by
  unfold significand
  split
  next hsmall => rw [shift, Nat.div_eq_of_lt hsmall] at h; omega
  next => omega

/-- A quotient in the cell of a code is at most half a step away from the number, half a step only
if the significand is even, and at most a quarter below a power of two. -/
theorem Cell.Contains.near {code value divisor unit : Nat} (h : (cell code).Contains value divisor)
    (hpos : 0 < code) (hunit : unit = divisor * 2 ^ shift code) :
    4 * (significand code * unit) ≤ value + 2 * unit ∧
    value ≤ 4 * (significand code * unit) + 2 * unit ∧
    (significand code % 2 = 1 → 4 * (significand code * unit) ≠ value + 2 * unit ∧
      value ≠ 4 * (significand code * unit) + 2 * unit) ∧
    (significand code = Nat.pow 2 52 → 0 < shift code →
      4 * (significand code * unit) ≤ value + unit) := by
  have hsignificand := significand_pos hpos
  have hlow : (cell code).low * divisor = (4 * significand code -
      if significand code = Nat.pow 2 52 ∧ 0 < shift code then 1 else 2) * unit := by
    simp only [cell, Nat.shiftLeft_eq, hunit]
    ring
  have hhigh : (cell code).high * divisor = 4 * (significand code * unit) + 2 * unit := by
    simp only [cell, Nat.shiftLeft_eq, hunit]
    ring
  have hclosed : (cell code).closed = decide (significand code % 2 = 0) := rfl
  unfold Cell.Contains at h
  rw [hlow, hhigh, hclosed, decide_eq_true_eq] at h
  generalize significand code = m at *
  have hbelow (gap : Nat) (hgap : gap ≤ 4 * m) :
      4 * (m * unit) = (4 * m - gap) * unit + gap * unit := by
    rw [← Nat.add_mul, Nat.sub_add_cancel hgap, Nat.mul_assoc]
  have htwo := hbelow 2 (by omega)
  have hone := hbelow 1 (by omega)
  split at h
  next hpower =>
    have heven : m % 2 = 0 := by rw [hpower.1]
    refine ⟨?_, ?_, fun hodd => ?_, fun _ _ => ?_⟩ <;> omega
  next hpower =>
    refine ⟨?_, ?_, fun hodd => ⟨?_, ?_⟩, fun hm hs => absurd ⟨hm, hs⟩ hpower⟩ <;> omega

/-! ### Rounding inside a cell -/

/-- The integer that a quotient is at most one half away from. -/
theorem halfEven_eq {n step m : Nat} (hstep : 0 < step) (hlow : 2 * (m * step) ≤ 2 * n + step)
    (hhigh : 2 * n ≤ 2 * (m * step) + step)
    (htie : m % 2 = 1 → 2 * (m * step) ≠ 2 * n + step ∧ 2 * n ≠ 2 * (m * step) + step) :
    halfEven n step = m := by
  have hsplit := Nat.div_add_mod' n step
  have hrest := Nat.mod_lt n hstep
  have hbelow : n / step ≤ m := by
    by_contra hmore
    have := Nat.mul_le_mul_right step (show m + 1 ≤ n / step by omega)
    rw [Nat.add_mul] at this
    omega
  have habove : m ≤ n / step + 1 := by
    by_contra hmore
    have := Nat.mul_le_mul_right step (show n / step + 2 ≤ m by omega)
    rw [Nat.add_mul] at this
    omega
  unfold halfEven
  simp only [Bool.or_eq_true, Bool.and_eq_true, decide_eq_true_eq, beq_iff_eq]
  generalize n % step = rest at *
  generalize n / step = floor at *
  obtain rfl | rfl : m = floor ∨ m = floor + 1 := by omega
  · split
    next hup => omega
    next => rfl
  · rw [Nat.add_mul] at hlow htie
    split
    next => rfl
    next hup => omega

/-- **Every quotient inside the cell of a code is rounded to that code.** -/
theorem roundUnits_of_contains {code value lift divisor : Nat} (hd : 0 < divisor) (hpos : 0 < code)
    (hfinite : code < infiniteCode)
    (h : (cell code).Contains (4 * (value * 2 ^ lift)) divisor) :
    roundUnits value lift divisor = code := by
  obtain ⟨drop, heq, hlt, hge⟩ := exists_drop value lift hd
  obtain ⟨hlow, hhigh, htie, hpower⟩ := h.near hpos rfl
  have hcode := code_eq code
  have hless := significand_lt code
  have hleast := @le_significand code
  have hunit (k : Nat) : 0 < divisor * 2 ^ k := Nat.mul_pos hd (Nat.two_pow_pos k)
  have hdouble (k : Nat) : divisor * 2 ^ (k + 1) = 2 * (divisor * 2 ^ k) := by ring
  have hmono {k l : Nat} (hkl : k ≤ l) : divisor * 2 ^ k ≤ divisor * 2 ^ l :=
    Nat.mul_le_mul_left _ (Nat.pow_le_pow_right (by decide) hkl)
  rw [Nat.div_lt_iff_lt_mul (hunit drop)] at hlt
  rw [Nat.le_div_iff_mul_le (hunit drop)] at hge
  rw [heq]
  generalize value * 2 ^ lift = scaled at *
  generalize shift code = s at *
  generalize significand code = m at *
  rw [show Nat.pow 2 52 = 4503599627370496 by decide] at hcode hleast hpower ⊢
  rw [show Nat.pow 2 53 = 9007199254740992 by decide] at hless
  have hs := hunit s
  rcases Nat.lt_trichotomy drop s with hfewer | rfl | hmore
  · -- Only just below a power of two is a bit less dropped than from the power itself.
    obtain ⟨n, rfl⟩ : ∃ n, s = n + 1 := ⟨s - 1, by omega⟩
    have hdropped := hmono (Nat.le_of_lt_succ hfewer)
    rw [hdouble] at hlow hhigh htie hpower hs
    have hm : m = 4503599627370496 := by
      by_contra hother
      have := Nat.mul_le_mul_right (2 * (divisor * 2 ^ n)) (show 4503599627370497 ≤ m by omega)
      omega
    subst hm
    have hpower := hpower rfl (Nat.succ_pos n)
    have hdrop : drop = n := by
      by_contra hother
      have := hmono (show drop + 1 ≤ n by omega)
      rw [hdouble] at this
      omega
    subst hdrop
    rw [halfEven_eq (m := 9007199254740992) (hunit drop) (by omega) (by omega) (by omega)]
    have hsum : drop * 4503599627370496 + 9007199254740992 = code := by omega
    rw [hsum, Nat.min_eq_left hfinite.le]
  · -- As many bits are dropped as from the number itself.
    rw [halfEven_eq (m := m) (hunit drop) (by omega) (by omega) (by omega), ← hcode,
      Nat.min_eq_left hfinite.le]
  · have hkept := hge (by omega)
    have hdropped := hmono (show s + 1 ≤ drop by omega)
    rw [hdouble] at hdropped
    have hm := Nat.mul_le_mul_right (divisor * 2 ^ s) (show m ≤ 9007199254740991 by omega)
    omega

/-! ### The grids that are tried -/

/-- The first grid tried for a number of `2 ^ bits` quarter units and more. -/
def firstGrid (bits : Nat) : Int := ((bits : Int) - (unitPlaces + 2)) * 1233 / 4096 + 1

theorem pow_le_pow_of_ratio {x y a b k n : Nat} (hx : 0 < x) (hb : 0 < b) (h : x ^ a ≤ y ^ b)
    (hratio : b * k ≤ a * n) : x ^ k ≤ y ^ n := by
  refine (Nat.pow_le_pow_iff_left hb.ne').mp ?_
  calc (x ^ k) ^ b = x ^ (b * k) := by rw [← Nat.pow_mul, Nat.mul_comm]
    _ ≤ x ^ (a * n) := Nat.pow_le_pow_right hx hratio
    _ = (x ^ a) ^ n := Nat.pow_mul ..
    _ ≤ (y ^ b) ^ n := Nat.pow_le_pow_left h n
    _ = (y ^ n) ^ b := Nat.pow_right_comm ..

theorem pow_le_mul_pow_of_ratio {x y a b k n : Nat} (hx : 0 < x) (hy : 0 < y) (hb : 0 < b)
    (h : y ^ b ≤ y * x ^ a) (hn : n ≤ b) (hratio : a * n ≤ b * k) : y ^ n ≤ y * x ^ k := by
  refine (Nat.pow_le_pow_iff_left hb.ne').mp ?_
  calc (y ^ n) ^ b = (y ^ b) ^ n := Nat.pow_right_comm ..
    _ ≤ (y * x ^ a) ^ n := Nat.pow_le_pow_left h n
    _ = y ^ n * x ^ (a * n) := by rw [Nat.mul_pow, ← Nat.pow_mul]
    _ ≤ y ^ b * x ^ (b * k) :=
        Nat.mul_le_mul (Nat.pow_le_pow_right hy hn) (Nat.pow_le_pow_right hx hratio)
    _ = (y * x ^ k) ^ b := by rw [Nat.mul_pow, ← Nat.pow_mul, Nat.mul_comm k b]

/-- `1233 / 4096` is just below the logarithm of two. -/
theorem ten_pow_le_two_pow {k n : Nat} (h : 4096 * k ≤ 1233 * n) : 10 ^ k ≤ 2 ^ n :=
  pow_le_pow_of_ratio (by decide) (by decide) (by decide +kernel) h

theorem two_pow_le_ten_pow {k n : Nat} (hn : n ≤ 4096) (h : 1233 * n ≤ 4096 * k) :
    2 ^ n ≤ 2 * 10 ^ k :=
  pow_le_mul_pow_of_ratio (by decide) (by decide) (by decide) (by decide +kernel) hn h

theorem quarterUnits_eq : quarterUnits = 2 ^ (unitPlaces + 2) := rfl

/-- One grid below the first, the step is no more than twice the number. -/
theorem step_firstGrid_le (bits : Nat) :
    step (firstGrid bits - 1) ≤ 2 * 2 ^ bits * scale (firstGrid bits - 1) := by
  have hplaces : unitPlaces + 2 = 1076 := rfl
  rcases Nat.lt_or_ge bits (unitPlaces + 2) with hsmall | hlarge
  · obtain ⟨n, hn⟩ := Nat.exists_eq_add_of_le hsmall.le
    obtain ⟨k, hk⟩ : ∃ k : Nat, firstGrid bits - 1 = -(k : Int) :=
      ⟨(1 - firstGrid bits).toNat, by unfold firstGrid; omega⟩
    have hratio : 1233 * n ≤ 4096 * k := by unfold firstGrid at hk; omega
    have hpow := two_pow_le_ten_pow (show n ≤ 4096 by omega) hratio
    rw [hk, Decimal.step_neg, Decimal.scale_neg, quarterUnits_eq, hn]
    calc 2 ^ (bits + n) = 2 ^ bits * 2 ^ n := Nat.pow_add ..
      _ ≤ 2 ^ bits * (2 * 10 ^ k) := Nat.mul_le_mul_left _ hpow
      _ = 2 * 2 ^ bits * 10 ^ k := by ring
  · obtain ⟨n, hn⟩ := Nat.exists_eq_add_of_le hlarge
    obtain ⟨k, hk⟩ : ∃ k : Nat, firstGrid bits - 1 = k :=
      ⟨(firstGrid bits - 1).toNat, by unfold firstGrid; omega⟩
    have hratio : 4096 * k ≤ 1233 * n := by unfold firstGrid at hk; omega
    have hpow := ten_pow_le_two_pow hratio
    rw [hk, Decimal.step_natCast, Decimal.scale_natCast, quarterUnits_eq, Nat.mul_one]
    calc 2 ^ (unitPlaces + 2) * 10 ^ k ≤ 2 ^ (unitPlaces + 2) * 2 ^ n := Nat.mul_le_mul_left _ hpow
      _ = 2 ^ bits := by rw [hn, ← Nat.pow_add]
      _ ≤ 2 * 2 ^ bits := Nat.le_mul_of_pos_left _ (by decide)

/-- Seventeen grids further down, a number has 54 bits more than the step. -/
theorem step_fine (bits : Nat) :
    step (firstGrid bits - 18) * 2 ^ 54 ≤ 2 ^ bits * scale (firstGrid bits - 18) := by
  have hten : 2 * 2 ^ 54 ≤ 10 ^ 17 := by decide
  have hadd := Decimal.step_add (firstGrid bits - 18) 17
  rw [show firstGrid bits - 18 + (17 : Nat) = firstGrid bits - 1 by omega] at hadd
  have hfirst := step_firstGrid_le bits
  have hscale := scale_pos (firstGrid bits - 1)
  generalize firstGrid bits - 18 = fine at *
  generalize firstGrid bits - 1 = coarse at *
  refine Nat.le_of_mul_le_mul_right ?_ (Nat.mul_pos (Nat.zero_lt_two) hscale)
  calc step fine * 2 ^ 54 * (2 * scale coarse) = 2 * 2 ^ 54 * step fine * scale coarse := by ring
    _ ≤ 10 ^ 17 * step fine * scale coarse := by gcongr
    _ = step coarse * scale fine := hadd.symm
    _ ≤ 2 * 2 ^ bits * scale coarse * scale fine := by gcongr
    _ = 2 ^ bits * scale fine * (2 * scale coarse) := by ring

theorem units_pos {code : Nat} (h : 0 < code) : 0 < units code :=
  Nat.mul_pos (significand_pos h) (Nat.two_pow_pos _)

/-- The walk from the first grid ends inside the cell. -/
theorem containsDecimal_search_cell {code : Nat} (hpos : 0 < code) :
    (cell code).ContainsDecimal
      ((cell code).search 24 (firstGrid (cell code).value.log2)).digits
      ((cell code).search 24 (firstGrid (cell code).value.log2)).exponent := by
  have hvalue : (cell code).value = 4 * units code := cell_value code
  have hhigh : (cell code).high = (cell code).value + 2 * 2 ^ shift code := by
    rw [hvalue, units, cell_high]
    ring
  have hless : units code < 2 ^ 53 * 2 ^ shift code :=
    Nat.mul_lt_mul_of_pos_right (significand_lt code) (Nat.two_pow_pos _)
  have hbits := Nat.log2_self_le (n := (cell code).value) (by have := units_pos hpos; omega)
  have hfine := step_fine (cell code).value.log2
  have hscale := scale_pos (firstGrid (cell code).value.log2 - 18)
  refine Cell.containsDecimal_search (cell_proper hpos) (k := 18) (by decide) ?_ ?_
  all_goals
    rw [show ((18 : Nat) : Int) = 18 from rfl]
    generalize firstGrid (cell code).value.log2 - 18 = fine at *
    have hnumber : step fine * 2 ^ 54 ≤ (cell code).value * scale fine :=
      hfine.trans (Nat.mul_le_mul_right _ hbits)
  · exact (Nat.le_mul_of_pos_right _ (by decide)).trans hnumber
  · -- The upper half of the cell is at least a part in `2 ^ 54` of the number.
    rw [hhigh, Nat.add_mul]
    refine Nat.add_lt_add_left (Nat.lt_of_mul_lt_mul_right (a := 2 ^ 54) ?_) _
    calc step fine * 2 ^ 54 ≤ (cell code).value * scale fine := hnumber
      _ < 2 ^ 55 * 2 ^ shift code * scale fine := by gcongr; omega
      _ = 2 * 2 ^ shift code * scale fine * 2 ^ 54 := by ring

/-- **The shortest decimal of a positive number lies in its cell.** -/
theorem containsDecimal_shortest {x : Binary64} (hpos : 0 < x.code) :
    (cell x.code).ContainsDecimal x.shortest.digits x.shortest.exponent := by
  have hzero : ¬ x.isZero = true := by simp [isZero, hpos.ne']
  rw [shortest, if_neg hzero]
  exact Cell.containsDecimal_trim _ _ (containsDecimal_search_cell hpos)

/-! ### Reading back -/

theorem ofCode_code (x : Binary64) : ofCode x.isNegative x.code = x := by
  have hbits := x.bits.toNat_lt
  have hhalf : Nat.pow 2 63 = 9223372036854775808 := by decide
  refine congrArg Binary64.mk (UInt64.toNat_inj.mp ?_)
  rw [UInt64.toNat_ofNat', isNegative, code, hhalf]
  split <;> simp_all <;> omega

theorem isFinite_ofCode (negative : Bool) {code : Nat} (h : code < infiniteCode) :
    (ofCode negative code).isFinite = true := by
  have hlt := h.trans infiniteCode_lt
  have hhalf : Nat.pow 2 63 = 9223372036854775808 := by decide
  simp only [isFinite, ofCode, Binary64.code, UInt64.toNat_ofNat', decide_eq_true_eq]
  rw [hhalf] at hlt ⊢
  cases negative <;> simp <;> omega

/-- Integers of up to 64 bits are not too large. -/
theorem isFinite_ofInt {i : Int} (h : i.natAbs ≤ 2 ^ 64) : (ofInt i).isFinite = true := by
  have hlargest : roundUnits (2 ^ 64) unitPlaces 1 < infiniteCode := by decide +kernel
  refine isFinite_ofCode _ (lt_of_le_of_lt (roundUnits_mono Nat.one_pos Nat.one_pos ?_) hlargest)
  exact Nat.mul_le_mul_right 1 (Nat.mul_le_mul_right _ h)

theorem cell_low_ge {code : Nat} (hpos : 0 < code) : 2 ≤ (cell code).low := by
  have hsignificand := significand_pos hpos
  simp only [cell, Nat.shiftLeft_eq]
  refine le_trans ?_ (Nat.le_mul_of_pos_right _ (Nat.two_pow_pos _))
  split <;> omega

theorem cell_high_le {code : Nat} (hfinite : code < infiniteCode) :
    (cell code).high ≤ 2 ^ (55 + 2045) := by
  have hsignificand : 4 * significand code + 2 ≤ 2 ^ 55 := by
    have hless := significand_lt code
    rw [show Nat.pow 2 53 = 9007199254740992 by decide] at hless
    omega
  have hshift : shift code ≤ 2045 := by
    have hless : code / Nat.pow 2 52 < 2047 := (Nat.div_lt_iff_lt_mul (by decide)).mpr hfinite
    unfold shift
    omega
  rw [cell_high, Nat.pow_add]
  exact Nat.mul_le_mul hsignificand (Nat.pow_le_pow_right (by decide) hshift)

/-- A decimal in the cell of a finite number is neither so large nor so small that its digits are
not looked at. -/
theorem bounds_of_contains {code digits : Nat} {exponent : Int} (hpos : 0 < code)
    (hfinite : code < infiniteCode) (h : (cell code).ContainsDecimal digits exponent) :
    digits ≠ 0 ∧ exponent ≤ 1100 ∧ -1200 ≤ exponent + digits.log2 := by
  have hlow := (Nat.mul_le_mul_right _ (cell_low_ge hpos)).trans h.low_le
  have hhigh := h.le_high.trans (Nat.mul_le_mul_right _ (cell_high_le hfinite))
  have hplaces : unitPlaces + 2 = 1076 := rfl
  have hdigits : digits ≠ 0 := by
    rintro rfl
    have := scale_pos exponent
    omega
  refine ⟨hdigits, ?_, ?_⟩
  · by_contra hlarge
    obtain ⟨n, rfl⟩ := Int.eq_ofNat_of_zero_le (show 0 ≤ exponent by omega)
    rw [Decimal.step_natCast, Decimal.scale_natCast, quarterUnits_eq, Nat.mul_one] at hhigh
    have hten : 2 ^ (3 * n) ≤ 10 ^ n := by
      rw [Nat.pow_mul]
      exact Nat.pow_le_pow_left (by decide) n
    have hpow : 2 ^ (unitPlaces + 2 + 3 * n) ≤ 2 ^ (55 + 2045) := by
      rw [Nat.pow_add]
      exact (Nat.mul_le_mul_left _ hten).trans
        ((Nat.le_mul_of_pos_left _ (Nat.pos_of_ne_zero hdigits)).trans hhigh)
    have := (Nat.pow_le_pow_iff_right (by decide)).mp hpow
    omega
  · by_contra hsmall
    obtain ⟨n, hn⟩ := Int.eq_ofNat_of_zero_le (show 0 ≤ -exponent by omega)
    obtain rfl : exponent = -(n : Int) := by omega
    rw [Decimal.step_neg, Decimal.scale_neg, quarterUnits_eq] at hlow
    have hpow : 2 ^ (n + 1) < 2 ^ (digits.log2 + 1 + (unitPlaces + 2)) := by
      calc 2 ^ (n + 1) = 2 * 2 ^ n := by ring
        _ ≤ 2 * 10 ^ n := Nat.mul_le_mul_left _ (Nat.pow_le_pow_left (by decide) n)
        _ ≤ digits * 2 ^ (unitPlaces + 2) := hlow
        _ < 2 ^ (digits.log2 + 1) * 2 ^ (unitPlaces + 2) :=
          Nat.mul_lt_mul_of_pos_right Nat.lt_log2_self (Nat.two_pow_pos _)
        _ = 2 ^ (digits.log2 + 1 + (unitPlaces + 2)) := (Nat.pow_add ..).symm
    have := (Nat.pow_lt_pow_iff_right (by decide)).mp hpow
    omega

/-- **A decimal inside the cell of a number reads back as that number.** -/
theorem ofDecimal_of_contains {code digits : Nat} {exponent : Int} (negative : Bool) (hpos : 0 < code)
    (hfinite : code < infiniteCode) (h : (cell code).ContainsDecimal digits exponent) :
    ofDecimal negative digits exponent = ofCode negative code := by
  obtain ⟨hdigits, hlarge, hsmall⟩ := bounds_of_contains hpos hfinite h
  have hquarters (value lift : Nat) : value * 2 ^ (lift + 2) = 4 * (value * 2 ^ lift) := by ring
  unfold ofDecimal ofQuotient roundQuotient
  rw [if_neg hdigits]
  dsimp only
  rw [if_neg (by omega), if_neg (by omega)]
  unfold Cell.ContainsDecimal at h
  obtain ⟨n, rfl | rfl⟩ := exponent.eq_nat_or_neg
  · rw [if_pos (by omega), Int.toNat_natCast]
    rw [Decimal.step_natCast, Decimal.scale_natCast, quarterUnits_eq, Nat.mul_left_comm,
      Nat.mul_comm, hquarters] at h
    exact congrArg _ (roundUnits_of_contains Nat.one_pos hpos hfinite h)
  · rw [Decimal.step_neg, Decimal.scale_neg, quarterUnits_eq, hquarters] at h
    have hround := roundUnits_of_contains (Nat.pow_pos (by decide)) hpos hfinite h
    split
    next hzero =>
      obtain rfl : n = 0 := by omega
      simpa using congrArg (ofCode negative) hround
    next =>
      rw [Int.natAbs_neg, Int.natAbs_natCast]
      exact congrArg _ hround

theorem shortest_of_code_eq_zero {x : Binary64} (h : x.code = 0) : x.shortest = ⟨0, 0⟩ := by
  simp [shortest, isZero, h]

/-- Only zero has no digits. -/
theorem shortest_of_digits_eq_zero {x : Binary64} (h : x.isFinite = true)
    (hdigits : x.shortest.digits = 0) : x.shortest = ⟨0, 0⟩ := by
  rcases Nat.eq_zero_or_pos x.code with hzero | hpos
  · exact shortest_of_code_eq_zero hzero
  · exact absurd hdigits
      (bounds_of_contains hpos (of_decide_eq_true h) (containsDecimal_shortest hpos)).1

/-- The shortest decimal of a finite number reads back as that number, with any number of zeros
moved from its exponent into its digits. -/
theorem ofDecimal_shortest_shift {x : Binary64} (h : x.isFinite = true) (zeros : Nat) :
    ofDecimal x.isNegative (x.shortest.digits * 10 ^ zeros) (x.shortest.exponent - zeros) = x := by
  rcases Nat.eq_zero_or_pos x.code with hzero | hpos
  · rw [shortest_of_code_eq_zero hzero, ofDecimal, if_pos (Nat.zero_mul _), ← hzero, ofCode_code]
  · have hcontains := containsDecimal_shortest hpos
    rw [← Int.sub_add_cancel x.shortest.exponent zeros, Cell.containsDecimal_shift] at hcontains
    rw [ofDecimal_of_contains _ hpos (of_decide_eq_true h) hcontains, ofCode_code]

/-- **The shortest decimal of a finite number reads back as that number.** -/
theorem ofDecimal_shortest {x : Binary64} (h : x.isFinite = true) :
    ofDecimal x.isNegative x.shortest.digits x.shortest.exponent = x := by
  simpa using ofDecimal_shortest_shift h 0

end Binary64

end Likeness
