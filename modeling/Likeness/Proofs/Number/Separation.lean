import Likeness.Proofs.Number.Rounding

/-!
# Likeness.Proofs.Number.Separation

Rounding tells quotients apart that differ by more than a part in `2 ^ 52`
(`Binary64.roundUnits_lt`). A rounded quotient lies within half a step of the exact one, and a step is no
more than that part of either.

For the ratio of a score this means that the same matches out of a greater total make a smaller ratio,
while totals have no more than 52 bits (`Score.ratio_lt_of_total_lt`). While they have no more than 26,
ratios are in the order of the exact quotients (`Score.ratio_lt_iff`).
-/

namespace Likeness

namespace Binary64

/-- The nearest integer is at most half a step away. -/
theorem halfEven_near (n : Nat) {step : Nat} (hstep : 0 < step) :
    2 * (halfEven n step * step) ≤ 2 * n + step ∧ 2 * n ≤ 2 * (halfEven n step * step) + step := by
  have hsplit := Nat.div_add_mod' n step
  unfold halfEven
  split
  next hup =>
    simp only [Bool.or_eq_true, Bool.and_eq_true, decide_eq_true_eq, beq_iff_eq] at hup
    have hrest := Nat.mod_lt n hstep
    rw [Nat.add_mul, Nat.one_mul]
    omega
  next hdown =>
    simp only [Bool.or_eq_true, Bool.and_eq_true, decide_eq_true_eq, beq_iff_eq, not_or] at hdown
    omega

/-- Two quotients `low` and `high` in steps of the first, from the second of which `more` bits more were
dropped. Where the digits of the first run out just as those of the second begin, both would have to lie
half a step off, which is too close. -/
theorem digits_lt {step low high digits more digits' : Nat} (hstep : 0 < step)
    (hlarge : 2 ^ 52 * step ≤ low) (h : 2 ^ 52 * low ≤ (2 ^ 52 - 1) * high)
    (hlow : 2 * (digits * step) ≤ 2 * low + step)
    (hhigh : 2 * high ≤ 2 * (digits' * (step * 2 ^ more)) + step * 2 ^ more)
    (hdigits : digits ≤ 2 * 2 ^ 52) (hdigits' : 0 < more → 2 ^ 52 ≤ digits') :
    digits < more * 2 ^ 52 + digits' := by
  by_contra hover
  obtain rfl | rfl | hmore : more = 0 ∨ more = 1 ∨ 2 ≤ more := by omega
  · have hle := Nat.mul_le_mul_right step (show digits' ≤ digits by omega)
    rw [Nat.pow_zero, Nat.mul_one] at hhigh
    omega
  · obtain ⟨rfl, rfl⟩ : digits = 2 * 2 ^ 52 ∧ digits' = 2 ^ 52 := by
      have := hdigits' Nat.one_pos
      omega
    omega
  · have := hdigits' (by omega)
    omega

/-- A quotient of at least `2 ^ 52` units, and another that is greater by a part in `2 ^ 52 - 1`. -/
theorem roundUnits_lt {value lift divisor value' lift' divisor' : Nat} (hd : 0 < divisor)
    (hd' : 0 < divisor') (hlarge : 2 ^ 52 * divisor ≤ value * 2 ^ lift)
    (h : 2 ^ 52 * (value * 2 ^ lift * divisor') ≤ (2 ^ 52 - 1) * (value' * 2 ^ lift' * divisor))
    (hfinite : roundUnits value lift divisor < infiniteCode) :
    roundUnits value lift divisor < roundUnits value' lift' divisor' := by
  obtain ⟨drop, heq, hlt, hge⟩ := exists_drop value lift hd
  obtain ⟨drop', heq', hlt', hge'⟩ := exists_drop value' lift' hd'
  generalize value * 2 ^ lift = scaled at *
  generalize value' * 2 ^ lift' = scaled' at *
  obtain ⟨more, rfl⟩ := Nat.exists_eq_add_of_le
    (drop_le_of_mul_le hd hd' (show scaled * divisor' ≤ scaled' * divisor by omega) hge hlt')
  have hpos := Nat.mul_pos hd (Nat.two_pow_pos drop)
  have hpos' := Nat.mul_pos hd' (Nat.two_pow_pos (drop + more))
  have hkept : 2 ^ 52 * (divisor * 2 ^ drop) ≤ scaled := by
    rcases Nat.eq_zero_or_pos drop with rfl | hdropped
    · simpa using hlarge
    · exact (Nat.le_div_iff_mul_le hpos).mp (hge hdropped)
  have hdigits : halfEven scaled (divisor * 2 ^ drop) <
      more * 2 ^ 52 + halfEven scaled' (divisor' * 2 ^ (drop + more)) := by
    refine digits_lt (Nat.mul_pos hpos hd') ?_ h ?_ ?_ ((halfEven_le _ _).trans hlt)
      fun hmore => (hge' (by omega)).trans (div_le_halfEven _ _)
    · calc 2 ^ 52 * (divisor * 2 ^ drop * divisor') = 2 ^ 52 * (divisor * 2 ^ drop) * divisor' :=
            (Nat.mul_assoc ..).symm
        _ ≤ scaled * divisor' := Nat.mul_le_mul_right _ hkept
    · have hnear := Nat.mul_le_mul_right divisor' (halfEven_near scaled hpos).1
      rw [Nat.add_mul, Nat.mul_assoc, Nat.mul_assoc, Nat.mul_assoc 2] at hnear
      exact hnear
    · have hnear := Nat.mul_le_mul_right divisor (halfEven_near scaled' hpos').2
      have hstep : divisor' * 2 ^ (drop + more) * divisor = divisor * 2 ^ drop * divisor' * 2 ^ more := by
        ring
      rw [Nat.add_mul, Nat.mul_assoc, Nat.mul_assoc, Nat.mul_assoc, hstep] at hnear
      exact hnear
  rw [heq] at hfinite ⊢
  rw [heq']
  refine lt_min (lt_of_le_of_lt (min_le_left ..) ?_) hfinite
  rw [Nat.add_mul, Nat.add_assoc]
  exact Nat.add_lt_add_left hdigits _

end Binary64

namespace Score

open Binary64

/-- Parts of up to 53 bits are exact, and their quotient is rounded once. -/
theorem ratio_eq_roundUnits {s : Score} (hm : 0 < s.matched) (hle : s.matched ≤ s.total)
    (ht : s.total ≤ 2 ^ 53) :
    s.ratio = ofCode false (roundUnits s.matched unitPlaces s.total) := by
  obtain ⟨value, divisor, common, hd, hratio, hvalue, hdivisor⟩ := ratio_eq hm hle (by omega)
  rw [units_roundUnits_one hm (by omega) (by decide) (by decide)] at hvalue
  rw [units_roundUnits_one (by omega) ht (by decide) (by decide)] at hdivisor
  have hcross : value * 2 ^ unitPlaces * s.total = s.matched * 2 ^ unitPlaces * divisor := by
    refine Nat.eq_of_mul_eq_mul_right (Nat.two_pow_pos common) ?_
    calc value * 2 ^ unitPlaces * s.total * 2 ^ common
        = value * 2 ^ common * (s.total * 2 ^ unitPlaces) := by ring
      _ = s.matched * 2 ^ unitPlaces * (divisor * 2 ^ common) := by rw [hvalue, hdivisor]
      _ = s.matched * 2 ^ unitPlaces * divisor * 2 ^ common := (Nat.mul_assoc ..).symm
  rw [hratio, roundUnits_congr hd (by omega) hcross]

/-- Equal quotients have the same ratio. -/
theorem ratio_congr {s t : Score} (hs : 0 < s.matched) (hsLe : s.matched ≤ s.total)
    (hsSmall : s.total ≤ 2 ^ 53) (ht : 0 < t.matched) (htLe : t.matched ≤ t.total)
    (htSmall : t.total ≤ 2 ^ 53) (h : s.matched * t.total = t.matched * s.total) :
    s.ratio = t.ratio := by
  rw [ratio_eq_roundUnits hs hsLe hsSmall, ratio_eq_roundUnits ht htLe htSmall]
  refine congrArg (ofCode false) (roundUnits_congr (by omega) (by omega) ?_)
  rw [Nat.mul_right_comm, h, Nat.mul_right_comm]

/-- Quotients that are far enough apart have ratios in the same order. -/
theorem ratio_lt_of_gap {s t : Score} (hs : 0 < s.matched) (hsLe : s.matched ≤ s.total)
    (hsSmall : s.total ≤ 2 ^ 52) (ht : 0 < t.matched) (htLe : t.matched ≤ t.total)
    (htSmall : t.total ≤ 2 ^ 52)
    (hgap : 2 ^ 52 * (s.matched * t.total) ≤ (2 ^ 52 - 1) * (t.matched * s.total)) :
    s.ratio.lt t.ratio = true := by
  have hpos : 0 < s.total := by omega
  have hpos' : 0 < t.total := by omega
  obtain ⟨hnumber, hsign⟩ := of_weight_pos (weight_pos hs hsLe (by omega))
  rw [lt_iff_weight_lt hnumber hsign, ratio_eq_roundUnits hs hsLe (by omega),
    ratio_eq_roundUnits ht htLe (by omega), weight_ofCode (roundUnits_le ..),
    weight_ofCode (roundUnits_le ..)]
  refine roundUnits_lt hpos hpos' ?_ ?_ ?_
  · calc 2 ^ 52 * s.total ≤ 2 ^ 52 * 2 ^ 52 := Nat.mul_le_mul_left _ hsSmall
      _ ≤ 2 ^ unitPlaces := by
        rw [← Nat.pow_add]
        exact Nat.pow_le_pow_right (by decide) (by decide)
      _ ≤ s.matched * 2 ^ unitPlaces := Nat.le_mul_of_pos_left _ hs
  · calc 2 ^ 52 * (s.matched * 2 ^ unitPlaces * t.total)
        = 2 ^ unitPlaces * (2 ^ 52 * (s.matched * t.total)) := by ring
      _ ≤ 2 ^ unitPlaces * ((2 ^ 52 - 1) * (t.matched * s.total)) := Nat.mul_le_mul_left _ hgap
      _ = (2 ^ 52 - 1) * (t.matched * 2 ^ unitPlaces * s.total) := by ring
  · exact lt_of_le_of_lt (roundUnits_le_one hpos hsLe) (by decide)

/-- **A greater total makes a smaller ratio**, with the same matches out of it. -/
theorem ratio_lt_of_total_lt {s t : Score} (hm : 0 < s.matched) (hsame : t.matched = s.matched)
    (hle : s.matched ≤ s.total) (hlt : s.total < t.total) (ht : t.total ≤ 2 ^ 52) :
    t.ratio.lt s.ratio = true := by
  refine ratio_lt_of_gap (by omega) (by omega) ht hm hle (by omega) ?_
  have hparts : 2 ^ 52 * s.total ≤ (2 ^ 52 - 1) * t.total := by omega
  calc 2 ^ 52 * (t.matched * s.total) = s.matched * (2 ^ 52 * s.total) := by
        rw [hsame, Nat.mul_left_comm]
    _ ≤ s.matched * ((2 ^ 52 - 1) * t.total) := Nat.mul_le_mul_left _ hparts
    _ = (2 ^ 52 - 1) * (s.matched * t.total) := Nat.mul_left_comm ..

/-- **Ratios are in the order of the quotients** while totals have no more than 26 bits. -/
theorem ratio_lt_iff {s t : Score} (hs : 0 < s.matched) (hsLe : s.matched ≤ s.total)
    (hsSmall : s.total ≤ 2 ^ 26) (ht : 0 < t.matched) (htLe : t.matched ≤ t.total)
    (htSmall : t.total ≤ 2 ^ 26) :
    s.ratio.lt t.ratio = true ↔ s.matched * t.total < t.matched * s.total := by
  -- Cross products have 52 bits at most, so that different ones are far enough apart.
  have hgap {m n : Nat} (h : m < n) (hn : n ≤ 2 ^ 26 * 2 ^ 26) :
      2 ^ 52 * m ≤ (2 ^ 52 - 1) * n := by omega
  have hcross : s.matched * t.total ≤ 2 ^ 26 * 2 ^ 26 :=
    Nat.mul_le_mul (hsLe.trans hsSmall) htSmall
  have hcross' : t.matched * s.total ≤ 2 ^ 26 * 2 ^ 26 :=
    Nat.mul_le_mul (htLe.trans htSmall) hsSmall
  obtain ⟨hnumber, hsign⟩ := of_weight_pos (weight_pos hs hsLe (by omega))
  obtain ⟨hnumber', hsign'⟩ := of_weight_pos (weight_pos ht htLe (by omega))
  rcases Nat.lt_trichotomy (s.matched * t.total) (t.matched * s.total) with h | h | h
  · exact iff_of_true
      (ratio_lt_of_gap hs hsLe (by omega) ht htLe (by omega) (hgap h hcross')) h
  · rw [ratio_congr hs hsLe (by omega) ht htLe (by omega) h, lt_iff_weight_lt hnumber' hsign']
    omega
  · have hlt : t.ratio.lt s.ratio = true :=
      ratio_lt_of_gap ht htLe (by omega) hs hsLe (by omega) (hgap h hcross)
    rw [lt_iff_weight_lt hnumber' hsign'] at hlt
    rw [lt_iff_weight_lt hnumber hsign]
    omega

end Score

end Likeness
