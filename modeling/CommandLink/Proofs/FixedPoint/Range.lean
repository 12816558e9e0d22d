import CommandLink.Proofs.FixedPoint.Rounding

/-!
# Values that cannot be read back

A value is accepted if its product with the scale is a 32-bit integer once rounded, and read back as
the quotient of that integer by the scale. At the very end of the range the quotient can be infinite
where the value was not (`Lost`), since rounding to an integer may have gone up.

`Lost.extreme`: that takes both a scale of at most `2 ^ -993` and a value of at least `2 ^ 1022`.
-/

namespace CommandLink

namespace FixedPoint

open Binary

variable {raw : Int32} {x scale : Binary64}

/-- The square of one, in smallest positive values, as a multiple of the last binade. -/
theorem exists_unitsPerOne_mul : ∃ top, 2 ^ FloatFormat.binary64.exponentBits = top + 3 ∧
    FloatFormat.binary64.unitsPerOne * FloatFormat.binary64.unitsPerOne = 2 ^ 103 * 2 ^ top := by
  obtain ⟨top, htop⟩ : ∃ top, top = 2045 := ⟨_, rfl⟩
  refine ⟨top, by rw [htop]; rfl, ?_⟩
  unfold FloatFormat.unitsPerOne
  rw [← Nat.pow_add, ← Nat.pow_add, htop]
  congr 1

/-- A quotient below the middle between the last finite value and `2 ^ 1024` is finite. -/
theorem isFinite_decode (hs : validScale scale = true) {top : Nat}
    (htop : 2 ^ FloatFormat.binary64.exponentBits = top + 3)
    (h : 2 * (raw.toInt.natAbs * FloatFormat.binary64.unitsPerOne *
      FloatFormat.binary64.unitsPerOne) < (2 ^ 54 - 1) * (scale.units * 2 ^ top)) :
    (decode raw scale).isFinite = true := by
  unfold decode
  rw [div_of_isFinite (isFinite_ofInt_toInt raw) (isFinite_of_validScale hs)
    (isZero_of_validScale hs), units_ofInt_toInt, isFinite_iff]
  exact FloatFormat.nearest_lt_infinity_of_lt htop h

/-! ## Scales that are not too small -/

/-- The number behind `2 ^ -993` is `2 ^ -1045` away from it. -/
theorem le_units_of_lt (hx : x.isFinite = true) (h : 2 ^ 81 < x.units) :
    2 ^ 81 + 2 ^ 29 ≤ x.units := by
  obtain ⟨a, e, ha, -, hu⟩ := FloatFormat.exists_units (isFinite_iff.mp hx)
  have hu : x.units = a * 2 ^ e := hu
  have ha : a < 2 ^ 53 := ha
  have he : 29 ≤ e := by
    by_contra hlow
    have hle : 2 ^ e ≤ 2 ^ 28 := Nat.pow_le_pow_right (by decide) (by omega)
    have := Nat.mul_le_mul (Nat.le_of_lt ha) hle
    omega
  obtain ⟨k, rfl⟩ := Nat.exists_eq_add_of_le he
  rw [hu, Nat.pow_add, Nat.mul_left_comm] at h ⊢
  generalize a * 2 ^ k = n at *
  omega

/-- **Every 32-bit integer is read back at a scale above `2 ^ -993`.** -/
theorem isFinite_decode_of_lt_units (hs : validScale scale = true) (h : 2 ^ 81 < scale.units) :
    (decode raw scale).isFinite = true := by
  obtain ⟨top, htop, hsquare⟩ := exists_unitsPerOne_mul
  refine isFinite_decode hs htop ?_
  have ha := natAbs_toInt_le raw
  have hle := le_units_of_lt (isFinite_of_validScale hs) h
  rw [Nat.mul_assoc, hsquare, ← Nat.mul_assoc, ← Nat.mul_assoc, ← Nat.mul_assoc]
  refine Nat.mul_lt_mul_of_pos_right ?_ (Nat.two_pow_pos _)
  omega

/-! ## Values that are not too large -/

/-- The fixed-point form of an accepted value is the integer nearest to its finite product with the
scale. -/
theorem encode_eq_ok (h : encode x scale = .ok raw) :
    x.isFinite = true ∧ scale.isFinite = true ∧ (x.mul scale).isFinite = true ∧
      raw.toInt.natAbs = (2 * (x.mul scale).units + FloatFormat.binary64.unitsPerOne) /
        (2 * FloatFormat.binary64.unitsPerOne) := by
  obtain ⟨hx, hs⟩ := isFinite_of_encode h
  obtain ⟨hproduct, hrounded⟩ := (encode_eq_ok_iff hx hs).mp h
  rw [← hrounded, rounded, natAbs_signed]
  exact ⟨hx, hs, hproduct, rfl⟩

/-- The integer `a` nearest to the product `p` of `x` and `s` is at most about twice the product, so
`a / s` is at most about twice `x`. -/
theorem quotient_of_product_lt {a u s x p top : Nat} (hs : 0 < s) (hu : 2 ^ 53 ≤ u)
    (hx : x < 2 ^ 51 * 2 ^ top) (ha : a = (2 * p + u) / (2 * u))
    (hp : FloatFormat.binary64.Near (x * s) u p) :
    2 * (a * u * u) < (2 ^ 54 - 1) * (s * 2 ^ top) := by
  have hupper : 2 ^ 53 * (p * u) ≤ 2 ^ 53 * (x * s) + max (x * s) (u * 2 ^ 52) := hp.upper
  have hxs : x * s < 2 ^ 51 * (2 ^ top * s) := by
    rw [← Nat.mul_assoc]
    exact Nat.mul_lt_mul_of_pos_right hx hs
  rw [Nat.mul_comm s]
  generalize 2 ^ top * s = limit at hxs ⊢
  rcases Nat.eq_zero_or_pos a with hzero | hpos
  · rw [hzero, Nat.zero_mul, Nat.zero_mul]
    omega
  · have hnearest : a * u * 2 ≤ 2 * p + u := by
      rw [ha, Nat.mul_assoc, Nat.mul_comm u]
      exact Nat.div_mul_le_self _ _
    have hone : u ≤ a * u := Nat.le_mul_of_pos_left _ hpos
    have htwice : a * u * u ≤ 2 * p * u := Nat.mul_le_mul_right u (by omega)
    have hlarge : 2 ^ 52 * u ≤ p * u := Nat.mul_le_mul_right u (by omega)
    rw [Nat.mul_assoc 2] at htwice
    omega

/-- **A value below `2 ^ 1022` that is accepted is read back**, whatever the scale. -/
theorem isFinite_decode_of_units_lt (hs : validScale scale = true) (h : encode x scale = .ok raw)
    (hx : x.units * 2 ^ 52 <
      FloatFormat.binary64.unitsPerOne * FloatFormat.binary64.unitsPerOne) :
    (decode raw scale).isFinite = true := by
  obtain ⟨hxfin, hsfin, hpfin, hraw⟩ := encode_eq_ok h
  obtain ⟨top, htop, hsquare⟩ := exists_unitsPerOne_mul
  have hu : 2 ^ 53 ≤ FloatFormat.binary64.unitsPerOne :=
    FloatFormat.two_pow_le_unitsPerOne (by decide)
  rw [hsquare] at hx
  exact isFinite_decode hs htop (quotient_of_product_lt (units_pos_of_validScale hs) hu (by omega)
    hraw (near_mul hxfin hsfin hpfin))

/-! ## What is lost -/

/-- The value is accepted, but what it is read back as is not finite. -/
def Lost (x scale : Binary64) : Prop :=
  ∃ raw, encode x scale = .ok raw ∧ (decode raw scale).isFinite = false

/-- **Only a value of at least `2 ^ 1022` at a scale of at most `2 ^ -993` is lost.** -/
theorem Lost.extreme (hs : validScale scale = true) (hlost : Lost x scale) :
    scale.units ≤ 2 ^ 81 ∧ FloatFormat.binary64.unitsPerOne * FloatFormat.binary64.unitsPerOne ≤
      x.units * 2 ^ 52 := by
  obtain ⟨raw, hraw, hinfinite⟩ := hlost
  constructor
  · by_contra hscale
    rw [isFinite_decode_of_lt_units hs (Nat.lt_of_not_le hscale)] at hinfinite
    cases hinfinite
  · by_contra hvalue
    rw [isFinite_decode_of_units_lt hs hraw (Nat.lt_of_not_le hvalue)] at hinfinite
    cases hinfinite

end FixedPoint

end CommandLink
