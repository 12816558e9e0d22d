import CommandLink.DriveCommand
import CommandLink.Proofs.FixedPoint.Range
import CommandLink.Proofs.Float.Spacing

/-!
# Rates keep their steps

A rate is a single-precision number and travels as a whole number of ten-thousandths, the steps. A
receiver divides the steps by the scale in double precision and narrows the quotient.

* `NearSteps`: the steps that are nearest to a value. A rate travels as these, since its product with
  the scale is exact (`nearSteps_of_encode`, `encode_of_nearSteps`).
* `NearQuotient`: a value is the quotient of steps, up to the error of the division
  (`nearQuotient_decode`).
* `encode_narrow_decode`: a rate that was received travels as the same steps as the one that was sent.

Single-precision numbers below 1024 are at most `2 ^ -14` apart. That is less than a step, so the
narrowed quotient stays near to its steps, whatever they are (`nearSteps_nearest`). From 1024 on they
are at least `2 ^ -13` apart, which is more than a step. Then the narrowed quotient of arbitrary steps
can be nearer to other steps, but steps that were sent are near to a single-precision number, and this
number is what the quotient is narrowed to (`nearest_eq_of_nearSteps`).
-/

namespace CommandLink

namespace DriveCommand

open Binary FloatFormat

variable {one n value k : Nat} {x : Binary32} {raw : Int32}

/-! ## The scale -/

theorem validScale_scale : FixedPoint.validScale scale = true := by decide +kernel

theorem isFinite_scale : scale.isFinite = true := FixedPoint.isFinite_of_validScale validScale_scale

theorem units_scale : scale.units = 10000 * binary64.unitsPerOne := by
  unfold scale
  have hnat : Int.natAbs 10000 = 10000 := rfl
  rw [(units_ofInt (n := 10000) (by decide)).2, hnat]

/-- Any number of steps can be read back. -/
theorem isFinite_decode_scale (raw : Int32) : (FixedPoint.decode raw scale).isFinite = true := by
  refine FixedPoint.isFinite_decode_of_lt_units validScale_scale ?_
  have hone : 2 ^ 81 ≤ binary64.unitsPerOne := two_pow_le_unitsPerOne (by decide)
  rw [units_scale]
  omega

/-! ## The steps of a rate -/

/-- `n` is the number of steps nearest to a value, a half counting up. The value is a multiple of the
unit of which there are `one` in one. -/
structure NearSteps (one n value : Nat) : Prop where
  lower : 2 * n * one ≤ 2 * (10000 * value) + one
  upper : 2 * (10000 * value) < (2 * n + 1) * one

/-- The unit does not matter. -/
theorem nearSteps_mul (hk : 0 < k) :
    NearSteps (k * one) n (k * value) ↔ NearSteps one n value := by
  have hvalue : 2 * (10000 * (k * value)) = k * (2 * (10000 * value)) := by grind
  have hbelow : 2 * n * (k * one) = k * (2 * n * one) := Nat.mul_left_comm ..
  have habove : (2 * n + 1) * (k * one) = k * ((2 * n + 1) * one) := Nat.mul_left_comm ..
  constructor
  · rintro ⟨hlower, hupper⟩
    rw [hvalue, hbelow, ← Nat.mul_add] at hlower
    rw [hvalue, habove] at hupper
    exact ⟨Nat.le_of_mul_le_mul_left hlower hk, Nat.lt_of_mul_lt_mul_left hupper⟩
  · rintro ⟨hlower, hupper⟩
    constructor
    · rw [hvalue, hbelow, ← Nat.mul_add]
      exact Nat.mul_le_mul_left k hlower
    · rw [hvalue, habove]
      exact Nat.mul_lt_mul_of_pos_left hupper hk

/-- The product of a rate and the scale is exact: a significand of 24 bits times one of 14. -/
theorem mul_widen_scale (hx : x.isFinite = true) :
    (x.widen.mul scale).isFinite = true ∧ (x.widen.mul scale).negative = x.negative ∧
      ∃ k, 0 < k ∧ binary64.unitsPerOne = k * binary32.unitsPerOne ∧
        (x.widen.mul scale).units = 10000 * (k * x.units) := by
  obtain ⟨gap, hgap, hle⟩ := exists_unitsPerOne_binary64
  obtain ⟨a, e, ha, he, hunits⟩ := FloatFormat.exists_units (isFinite_iff.mp hx)
  obtain ⟨hfinite, hwide⟩ := units_widen hx
  have hunits : x.units = a * 2 ^ e := hunits
  have ha : a < 2 ^ 24 := ha
  have he : e + 1 < 256 := he
  have hvalue : x.widen.units = 2 ^ gap * x.units := by
    rw [hgap, Nat.mul_left_comm, ← Nat.mul_assoc] at hwide
    exact Nat.eq_of_mul_eq_mul_right (unitsPerOne_pos _) hwide
  have hexact : binary64.Exact (10000 * (2 ^ gap * x.units)) := by
    have hfactors : 10000 * (2 ^ gap * (a * 2 ^ e)) = 10000 * a * 2 ^ (gap + e) := by
      rw [Nat.pow_add]
      grind
    rw [hunits, hfactors]
    exact exact_mul_two_pow (Nat.lt_trans (by omega : 10000 * a < 2 ^ 38) (by decide))
      (Nat.lt_trans (by omega) hle)
  have hproduct : x.widen.units * scale.units =
      10000 * (2 ^ gap * x.units) * binary64.unitsPerOne := by
    rw [units_scale, hvalue]
    grind
  have hround := round_exact (x.widen.negative != scale.negative) hexact (unitsPerOne_pos binary64)
  rw [← hproduct, ← mul_of_isFinite hfinite isFinite_scale] at hround
  refine ⟨hround.1, ?_, 2 ^ gap, Nat.two_pow_pos gap, hgap, hround.2⟩
  rw [negative_mul hfinite isFinite_scale, negative_widen hx,
    FixedPoint.negative_of_validScale validScale_scale, Bool.bne_false]

/-- **A rate travels as the steps nearest to it.** -/
theorem nearSteps_of_encode (h : FixedPoint.encode x.widen scale = .ok raw) :
    x.isFinite = true ∧ NearSteps binary32.unitsPerOne raw.toInt.natAbs x.units := by
  obtain ⟨hfinite, -, -, hraw⟩ := FixedPoint.encode_eq_ok h
  have hx := isFinite_of_widen hfinite
  obtain ⟨-, -, k, hk, hone, hproduct⟩ := mul_widen_scale hx
  refine ⟨hx, (nearSteps_mul hk).mp ?_⟩
  have hpos := unitsPerOne_pos binary64
  rw [hproduct] at hraw
  rw [← hone]
  generalize binary64.unitsPerOne = one at *
  generalize raw.toInt.natAbs = n at *
  obtain ⟨hlower, hupper⟩ := (Nat.div_eq_iff (Nat.mul_pos Nat.two_pos hpos)).mp hraw.symm
  have htwice : n * (2 * one) = 2 * n * one := by grind
  rw [htwice] at hlower hupper
  exact ⟨hlower, by rw [Nat.add_mul]; omega⟩

/-- A number of the right sign that is near to the steps travels as these. -/
theorem encode_of_nearSteps (hx : x.isFinite = true)
    (hsign : x.negative = decide (raw.toInt < 0))
    (hnear : NearSteps binary32.unitsPerOne raw.toInt.natAbs x.units) :
    FixedPoint.encode x.widen scale = .ok raw := by
  obtain ⟨hfinite, hnegative, k, hk, hone, hproduct⟩ := mul_widen_scale hx
  obtain ⟨hlower, hupper⟩ := (nearSteps_mul hk).mpr hnear
  rw [← hone, ← hproduct] at hlower hupper
  have hint := toInt?_eq hfinite hlower hupper
  have hvalue : (if (x.widen.mul scale).negative = true then -(raw.toInt.natAbs : Int)
      else raw.toInt.natAbs) = raw.toInt := by
    rw [hnegative, hsign]
    simp only [decide_eq_true_eq]
    omega
  rw [hvalue] at hint
  unfold FixedPoint.encode
  simp only [(units_widen hx).1, isFinite_scale, hint, FixedPoint.inRange_toInt, Bool.not_true,
    Bool.or_self, Bool.false_eq_true, ↓reduceIte, Int32.ofInt_toInt]

/-! ## The quotient of steps -/

/-- A value is the quotient of `n` steps by the scale, up to one rounding in double precision. -/
structure NearQuotient (one n value : Nat) : Prop where
  upper : 2 ^ 53 * (10000 * value) ≤ (2 ^ 53 + 1) * (n * one)
  lower : (2 ^ 53 - 1) * (n * one) ≤ 2 ^ 53 * (10000 * value)

theorem NearQuotient.of_near (hone : 2 ^ 66 ≤ one)
    (h : binary64.Near (n * one * one) (10000 * one) value) : NearQuotient one n value := by
  have hupper : 2 ^ 53 * (value * (10000 * one)) ≤
    2 ^ 53 * (n * one * one) + max (n * one * one) (10000 * one * 2 ^ 52) := h.upper
  have hlower : 2 ^ 53 * (n * one * one) ≤
    2 ^ 53 * (value * (10000 * one)) + max (n * one * one) (10000 * one * 2 ^ 52) := h.lower
  have hvalue : value * (10000 * one) = 10000 * value * one := by grind
  rw [hvalue] at hupper hlower
  have hpos : 0 < one := by omega
  rcases Nat.eq_zero_or_pos n with rfl | hn
  · -- Zero steps are exactly zero.
    have hzero : value = 0 := by
      by_contra hne
      have := Nat.mul_le_mul_right one (by omega : 10000 ≤ 10000 * value)
      omega
    subst hzero
    constructor <;> omega
  · have hstep : one ≤ n * one := Nat.le_mul_of_pos_left one hn
    have hnormal : 10000 * one * 2 ^ 52 ≤ n * one * one := by
      rw [Nat.mul_right_comm]
      exact Nat.mul_le_mul_right one (by omega)
    rw [Nat.max_eq_left hnormal] at hupper hlower
    constructor <;> apply Nat.le_of_mul_le_mul_right _ hpos <;> grind

theorem nearQuotient_decode (raw : Int32) :
    NearQuotient binary64.unitsPerOne raw.toInt.natAbs (FixedPoint.decode raw scale).units := by
  have hnear := FixedPoint.near_decode validScale_scale (isFinite_decode_scale raw)
  rw [units_scale] at hnear
  exact .of_near (two_pow_le_unitsPerOne (by decide)) hnear

/-- The quotient is not below 1024 if the exact one is not. -/
theorem le_units_decode (h : 10240000 ≤ raw.toInt.natAbs) :
    1024 * binary64.unitsPerOne ≤ (FixedPoint.decode raw scale).units := by
  have hexact : binary64.Exact (1024 * binary64.unitsPerOne) :=
    exact_mul_unitsPerOne (by decide) (by decide)
  refine le_units_div hexact (FixedPoint.isFinite_ofInt_toInt raw) isFinite_scale
    (FixedPoint.isZero_of_validScale validScale_scale)
    (FixedPoint.units_pos_of_validScale validScale_scale) (isFinite_decode_scale raw) ?_
  rw [units_scale, FixedPoint.units_ofInt_toInt]
  generalize binary64.unitsPerOne = one
  calc 1024 * one * (10000 * one) = 10240000 * (one * one) := by grind
    _ ≤ raw.toInt.natAbs * (one * one) := Nat.mul_le_mul_right _ h
    _ = raw.toInt.natAbs * one * one := (Nat.mul_assoc ..).symm

/-- A quotient is finite in single precision. -/
theorem nearest_lt_infinity_of_nearQuotient (hone : 0 < one) (hn : n ≤ 2 ^ 31)
    (hvalue : NearQuotient one n value) :
    binary32.nearest (value * binary32.unitsPerOne) one < binary32.infinity := by
  refine nearest_lt_infinity (t := 144) ((Nat.div_lt_iff_lt_mul hone).mpr ?_) (by decide)
  have hupper := hvalue.upper
  have hsteps := Nat.mul_le_mul_right one hn
  have hlimit : 2 ^ (binary32.fractionBits + 144) = 2 ^ 18 * binary32.unitsPerOne := by decide
  rw [hlimit, Nat.mul_right_comm]
  exact Nat.mul_lt_mul_of_pos_right (by omega) (unitsPerOne_pos _)

/-! ## Below 1024 -/

/-- The spacing of single-precision numbers between 512 and 1024 is `2 ^ -14`. -/
theorem unitsPerOne_binary32 : binary32.unitsPerOne = 2 ^ 14 * 2 ^ 135 := by decide

/-- **Below 1024 a narrowed quotient is near to its steps.** -/
theorem nearSteps_nearest (hone : 0 < one) (hn : n < 10240000) (hvalue : NearQuotient one n value)
    (h : binary32.nearest (value * binary32.unitsPerOne) one < binary32.infinity) :
    NearSteps binary32.unitsPerOne n
      (binary32.units (binary32.nearest (value * binary32.unitsPerOne) one)) := by
  obtain ⟨hupper, hlower⟩ := hvalue
  have hsteps : n * one ≤ 10239999 * one := Nat.mul_le_mul_right one (by omega)
  have hlimit : 2 ^ (binary32.fractionBits + 1 + 135) = 1024 * binary32.unitsPerOne := by decide
  have hbelow : value * binary32.unitsPerOne < 2 ^ (binary32.fractionBits + 1 + 135) * one := by
    rw [hlimit, Nat.mul_right_comm]
    exact Nat.mul_lt_mul_of_pos_right (by omega) (unitsPerOne_pos _)
  obtain ⟨habove, hunder⟩ := nearest_error_of_lt hone h hbelow
  generalize binary32.units (binary32.nearest (value * binary32.unitsPerOne) one) = received at *
  rw [unitsPerOne_binary32] at *
  have hspacing : 0 < 2 ^ 135 := Nat.two_pow_pos _
  generalize 2 ^ 135 = spacing at *
  -- Half a spacing is about 0.31 steps, and the error of the division is far less than the rest.
  have hpos := Nat.mul_pos hone hspacing
  have hupper := Nat.mul_le_mul_right spacing hupper
  have hlower := Nat.mul_le_mul_right spacing hlower
  have hsteps := Nat.mul_le_mul_right spacing hsteps
  constructor
  · refine Nat.le_of_mul_le_mul_right (c := one) ?_ hone
    linarith
  · refine Nat.lt_of_mul_lt_mul_right (a := one) ?_
    linarith

/-! ## From 1024 on -/

/-- A number that is near to the steps of 1024 or more is itself not below 1024: the number before
1024 is more than half a step away. -/
theorem NearSteps.two_pow_le (hn : 10240000 ≤ n) (hx : x.isFinite = true)
    (hnear : NearSteps binary32.unitsPerOne n x.units) : 2 ^ (23 + 136) ≤ x.units := by
  have hsteps := Nat.mul_le_mul_right binary32.unitsPerOne hn
  have hlower := hnear.lower
  rw [unitsPerOne_binary32, Nat.mul_assoc] at *
  have hlow : 2 ^ (23 + 135) ≤ x.units := by omega
  obtain ⟨k, hk⟩ : 2 ^ 135 ∣ x.units := two_pow_dvd_units (isFinite_iff.mp hx) hlow
  rw [hk] at hlower ⊢
  omega

/-- A value and the quotient of its steps are less than `2 ^ -14` apart. -/
theorem NearSteps.lt_spacing {sent : Nat} (hone : 0 < one) (hn : n ≤ 2 ^ 31)
    (hsent : NearSteps binary32.unitsPerOne n sent) (hvalue : NearQuotient one n value) :
    sent * one < value * binary32.unitsPerOne + 2 ^ 135 * one ∧
      value * binary32.unitsPerOne < sent * one + 2 ^ 135 * one := by
  obtain ⟨hlower, hupper⟩ := hsent
  obtain ⟨habove, hbelow⟩ := hvalue
  rw [unitsPerOne_binary32] at *
  have hspacing : 0 < 2 ^ 135 := Nat.two_pow_pos _
  generalize 2 ^ 135 = spacing at *
  have hpos := Nat.mul_pos hone hspacing
  have hsteps := Nat.mul_le_mul_right (one * spacing) hn
  have hlower := Nat.mul_le_mul_right one hlower
  have hupper := Nat.mul_le_mul_right one (Nat.le_of_lt hupper)
  have habove := Nat.mul_le_mul_right spacing habove
  have hbelow := Nat.mul_le_mul_right spacing hbelow
  constructor <;> linarith

/-- **From 1024 on the quotient of the steps of a number is narrowed to this number.** -/
theorem nearest_eq_of_nearSteps (hone : 0 < one) (hn : 10240000 ≤ n) (hn' : n ≤ 2 ^ 31)
    (hx : x.isFinite = true) (hnear : NearSteps binary32.unitsPerOne n x.units)
    (hvalue : NearQuotient one n value) (hle : 1024 * one ≤ value)
    (h : binary32.nearest (value * binary32.unitsPerOne) one < binary32.infinity) :
    binary32.units (binary32.nearest (value * binary32.unitsPerOne) one) = x.units := by
  have hreceived : 1024 * binary32.unitsPerOne ≤
      binary32.units (binary32.nearest (value * binary32.unitsPerOne) one) := by
    refine (exact_mul_unitsPerOne (by decide) (by decide)).le_nearest hone h ?_
    rw [Nat.mul_right_comm]
    exact Nat.mul_le_mul_right _ hle
  obtain ⟨i, hi⟩ : 2 ^ 136 ∣ x.units :=
    two_pow_dvd_units (isFinite_iff.mp hx) (hnear.two_pow_le hn hx)
  obtain ⟨j, hj⟩ : 2 ^ 136 ∣ _ := two_pow_dvd_units h hreceived
  -- The quotient is less than half a spacing away from the number, so what it is rounded to is less
  -- than a spacing away, and both are multiples of the spacing.
  obtain ⟨hlt, hgt⟩ := hnear.lt_spacing hone hn' hvalue
  have hpos : 0 < 2 ^ 135 * one := Nat.mul_pos (Nat.two_pow_pos _) hone
  obtain ⟨hlo, hhi⟩ := (exact_units hx).nearest_within (c := 2 ^ 135 * one - 1) hone h
    (by omega) (by omega)
  have horder {a b : Nat} (h : 2 ^ 136 * a * one < 2 ^ 136 * b * one + 2 ^ 136 * one) : a ≤ b := by
    have hscaled : 2 ^ 136 * one * a < 2 ^ 136 * one * (b + 1) := by
      rw [Nat.mul_add_one, Nat.mul_right_comm, Nat.mul_right_comm _ one b]
      exact h
    exact Nat.lt_succ_iff.mp (Nat.lt_of_mul_lt_mul_left hscaled)
  rw [hj] at hlo hhi ⊢
  rw [hi] at *
  rw [Nat.le_antisymm (horder (by omega) : i ≤ j) (horder (by omega))]

/-! ## Sending what was received -/

/-- **A rate that was received travels as the steps that it was received as.** -/
theorem encode_narrow_decode (h : FixedPoint.encode x.widen scale = .ok raw) :
    (FixedPoint.decode raw scale).narrow.isFinite = true ∧
      FixedPoint.encode (FixedPoint.decode raw scale).narrow.widen scale = .ok raw := by
  obtain ⟨hx, hsent⟩ := nearSteps_of_encode h
  have hone := unitsPerOne_pos binary64
  have hn := FixedPoint.natAbs_toInt_le raw
  have hvalue := nearQuotient_decode raw
  have hfinite := nearest_lt_infinity_of_nearQuotient hone hn hvalue
  have hdecode := isFinite_decode_scale raw
  rw [narrow_of_isFinite hdecode, isFinite_round]
  refine ⟨hfinite, encode_of_nearSteps (isFinite_round.mpr hfinite) ?_ ?_⟩
  · rw [negative_round, FixedPoint.negative_decode validScale_scale]
  · rw [units_round]
    rcases Nat.lt_or_ge raw.toInt.natAbs 10240000 with hlow | hhigh
    · exact nearSteps_nearest hone hlow hvalue hfinite
    · rw [nearest_eq_of_nearSteps hone hhigh hn hx hsent hvalue (le_units_decode hhigh) hfinite]
      exact hsent

end DriveCommand

end CommandLink
