import CommandLink.Proofs.Float.Arithmetic

/-!
# The nearest value

Further facts on `FloatFormat.nearest`, in smallest positive values as in `Proofs.Float.Rounding`.

* `Exact.nearest_within`: no value is nearer to a quotient than the one that it is rounded to.
* `Exact.le_nearest`: so rounding does not cross a value.
* `units_nearest_mono`: and it keeps the order of what is rounded.
* `nearest_error_of_lt`: below a power of two, rounding is off by at most half the spacing there.
* `two_pow_dvd_units`: from a power of two on, values are multiples of the spacing there.
-/

namespace CommandLink

namespace FloatFormat

variable {F : FloatFormat} {num den n c t : Nat}

/-- No integer is nearer to a quotient than the one that it is rounded to. -/
theorem roundHalfEven_within (hden : 0 < den) (hlo : num ≤ n * den + c) (hhi : n * den ≤ num + c) :
    num ≤ roundHalfEven num den * den + c ∧ roundHalfEven num den * den ≤ num + c := by
  obtain ⟨hupper, hlower⟩ := roundHalfEven_error num hden
  generalize roundHalfEven num den = r at *
  rcases Nat.lt_trichotomy n r with hlt | rfl | hgt
  · have hstep : (n + 1) * den ≤ r * den := Nat.mul_le_mul_right den hlt
    rw [Nat.add_mul] at hstep
    omega
  · exact ⟨hlo, hhi⟩
  · have hstep : (r + 1) * den ≤ n * den := Nat.mul_le_mul_right den hgt
    rw [Nat.add_mul] at hstep
    omega

/-- **A quotient near a value is rounded to one that is as near.** -/
theorem Exact.nearest_within (hn : F.Exact n) (hden : 0 < den) (h : F.nearest num den < F.infinity)
    (hlo : num ≤ n * den + c) (hhi : n * den ≤ num + c) :
    num ≤ F.units (F.nearest num den) * den + c ∧ F.units (F.nearest num den) * den ≤ num + c := by
  obtain ⟨place, hplace, rfl⟩ := hn
  obtain ⟨a, e, ha, -, hu⟩ := exists_units hplace
  have hD : 0 < den * 2 ^ F.shiftOf num den := Nat.mul_pos hden (Nat.two_pow_pos _)
  have hvalue : F.significandOf num den * 2 ^ F.shiftOf num den * den =
      F.significandOf num den * (den * 2 ^ F.shiftOf num den) := by grind
  rw [units_nearest h, hvalue]
  rw [hu] at hlo hhi
  by_cases hshift : F.shiftOf num den ≤ e
  · -- The value is a whole number of steps of the binade that is rounded in.
    obtain ⟨k, rfl⟩ := Nat.exists_eq_add_of_le hshift
    have hsteps : a * 2 ^ (F.shiftOf num den + k) * den =
        a * 2 ^ k * (den * 2 ^ F.shiftOf num den) := by grind
    rw [hsteps] at hlo hhi
    exact roundHalfEven_within hD hlo hhi
  · -- The value is in a lower binade, and the first value of this one is nearer.
    have hpositive : F.shiftOf num den ≠ 0 := by omega
    have hquotient := (Nat.le_div_iff_mul_le hden).mp (le_div_of_shiftOf hpositive)
    have hfirst : 2 ^ (F.shiftOf num den + F.fractionBits) * den =
        2 ^ F.fractionBits * (den * 2 ^ F.shiftOf num den) := by grind
    have hbelow : a * 2 ^ e ≤ 2 ^ (F.shiftOf num den + F.fractionBits) := by
      calc a * 2 ^ e ≤ 2 ^ (F.fractionBits + 1) * 2 ^ e := Nat.mul_le_mul_right _ (Nat.le_of_lt ha)
        _ = 2 ^ (F.fractionBits + 1 + e) := (Nat.pow_add ..).symm
        _ ≤ _ := Nat.pow_le_pow_right (by decide) (by omega)
    have hbelow := Nat.mul_le_mul_right den hbelow
    rw [hfirst] at hquotient hbelow
    exact roundHalfEven_within (n := 2 ^ F.fractionBits) hD (by omega) (by omega)

/-- **Rounding does not cross a value.** -/
theorem Exact.le_nearest (hn : F.Exact n) (hden : 0 < den) (h : F.nearest num den < F.infinity)
    (hle : n * den ≤ num) : n ≤ F.units (F.nearest num den) := by
  obtain ⟨hlo, -⟩ := hn.nearest_within (c := num - n * den) hden h (by omega) (by omega)
  exact Nat.le_of_mul_le_mul_right (by omega) hden

/-- **Rounding keeps the order** of two quotients. If it did not, each of them would be nearer to its own
value than to the other's, so that both would be in the middle between the two. -/
theorem units_nearest_mono {num' : Nat} (hden : 0 < den) (h : F.nearest num den < F.infinity)
    (h' : F.nearest num' den < F.infinity) (hle : num ≤ num') :
    F.units (F.nearest num den) ≤ F.units (F.nearest num' den) := by
  rcases Nat.eq_or_lt_of_le hle with rfl | hbelow
  · exact Nat.le_refl _
  by_contra hcrossed
  have hstep : (F.units (F.nearest num' den) + 1) * den ≤ F.units (F.nearest num den) * den :=
    Nat.mul_le_mul_right den (Nat.lt_of_not_le hcrossed)
  rw [Nat.add_mul, Nat.one_mul] at hstep
  obtain ⟨-, hfirst⟩ := (exact_units h').nearest_within
    (c := (num - F.units (F.nearest num' den) * den) + (F.units (F.nearest num' den) * den - num))
    hden h (by omega) (by omega)
  obtain ⟨hsecond, -⟩ := (exact_units h).nearest_within
    (c := (num' - F.units (F.nearest num den) * den) + (F.units (F.nearest num den) * den - num'))
    hden h' (by omega) (by omega)
  omega

theorem units_nearest_zero (hden : 0 < den) : F.units (F.nearest 0 den) = 0 := by
  have hshift : F.shiftOf 0 den = 0 := by
    unfold shiftOf
    rw [Nat.zero_div, Nat.log2_zero, Nat.zero_sub]
  have hsignificand : F.significandOf 0 den = 0 := by
    have hinteger := roundHalfEven_mul 0 hden
    rw [Nat.zero_mul] at hinteger
    unfold significandOf
    rw [hshift, Nat.pow_zero, Nat.mul_one, hinteger]
  rw [nearest_eq, hshift, hsignificand, Nat.zero_mul, Nat.zero_min]
  exact if_pos (Nat.two_pow_pos _)

/-- **Below a power of two, rounding is off by at most half the spacing there.** -/
theorem nearest_error_of_lt (hden : 0 < den) (h : F.nearest num den < F.infinity)
    (hlt : num < 2 ^ (F.fractionBits + 1 + t) * den) :
    2 * (F.units (F.nearest num den) * den) ≤ 2 * num + 2 ^ t * den ∧
      2 * num ≤ 2 * (F.units (F.nearest num den) * den) + 2 ^ t * den := by
  have hshift : F.shiftOf num den ≤ t := by
    by_contra hshift
    have hpositive : F.shiftOf num den ≠ 0 := by omega
    have hle := (Nat.le_div_iff_mul_le hden).mp (le_div_of_shiftOf hpositive)
    have hpow : 2 ^ (F.fractionBits + 1 + t) ≤ 2 ^ (F.shiftOf num den + F.fractionBits) :=
      Nat.pow_le_pow_right (by decide) (by omega)
    have := Nat.mul_le_mul_right den hpow
    omega
  have hvalue : F.significandOf num den * 2 ^ F.shiftOf num den * den =
      F.significandOf num den * (den * 2 ^ F.shiftOf num den) := by grind
  have hspacing : den * 2 ^ F.shiftOf num den ≤ 2 ^ t * den := by
    rw [Nat.mul_comm]
    exact Nat.mul_le_mul_right den (Nat.pow_le_pow_right (by decide) hshift)
  obtain ⟨hupper, hlower⟩ :=
    roundHalfEven_error num (Nat.mul_pos hden (Nat.two_pow_pos (F.shiftOf num den)))
  rw [units_nearest h, hvalue]
  unfold significandOf
  omega

/-- **From a power of two on, values are multiples of the spacing there.** -/
theorem two_pow_dvd_units {place : Nat} (h : place < F.infinity)
    (hle : 2 ^ (F.fractionBits + t) ≤ F.units place) : 2 ^ t ∣ F.units place := by
  obtain ⟨a, e, ha, -, hu⟩ := exists_units h
  rw [hu] at hle ⊢
  have hlt : 2 ^ (F.fractionBits + t) < 2 ^ (F.fractionBits + 1 + e) := by
    rw [Nat.pow_add _ _ e]
    exact Nat.lt_of_le_of_lt hle (Nat.mul_lt_mul_of_pos_right ha (Nat.two_pow_pos e))
  have hte := (Nat.pow_lt_pow_iff_right (by decide)).mp hlt
  exact Nat.dvd_mul_left_of_dvd (Nat.pow_dvd_pow 2 (by omega)) a

end FloatFormat

/-- A quotient is not rounded below a value that it is not below. -/
theorem Binary.le_units_div {F : FloatFormat} {x y : Binary F} {n : Nat} (hn : F.Exact n)
    (hx : x.isFinite = true) (hy : y.isFinite = true) (h0 : y.isZero = false) (hpos : 0 < y.units)
    (h : (x.div y).isFinite = true) (hle : n * y.units ≤ x.units * F.unitsPerOne) :
    n ≤ (x.div y).units := by
  rw [div_of_isFinite hx hy h0] at h ⊢
  exact hn.le_nearest hpos (isFinite_round.mp h) hle

end CommandLink
