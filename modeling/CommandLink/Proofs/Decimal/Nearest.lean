import CommandLink.Decimal.Shortest
import CommandLink.Proofs.Decimal.Digits
import CommandLink.Proofs.Float.Spacing

/-!
# The binary number nearest to a decimal

Reading a decimal rounds its exact value once, and what is printed for a number reads back as it.

* `place_eq_exactPlace`: the powers of ten that are cut off beforehand would have been rounded to
  infinity or to zero anyway, so a decimal of any size is rounded from its exact value.
* `place_shift`: a decimal with zeros moved from its exponent to its digits is read alike, and so is
  one without its trailing zeros (`place_trim`).
* `place_shortest`: the shortest decimal of a finite number reads back as that number. This holds by
  the search for it, and when the search finds nothing because the exact expansion reads back.
-/

namespace CommandLink

namespace FloatFormat

variable {F : FloatFormat}

/-! ## Quotients -/

theorem roundHalfEven_mul_mul (num den : Nat) {k : Nat} (hk : 0 < k) :
    roundHalfEven (num * k) (den * k) = roundHalfEven num den := by
  have hlt : 2 * (num % den * k) < den * k ↔ 2 * (num % den) < den := by
    rw [← Nat.mul_assoc]
    exact Nat.mul_lt_mul_right hk
  have heq : 2 * (num % den * k) = den * k ↔ 2 * (num % den) = den := by
    rw [← Nat.mul_assoc]
    exact Nat.mul_left_inj (Nat.ne_of_gt hk)
  unfold roundHalfEven
  simp only [Nat.mul_div_mul_right _ _ hk, Nat.mul_mod_mul_right, hlt, heq]

/-- A quotient is rounded alike in any terms. -/
theorem nearest_mul_mul (num den : Nat) {k : Nat} (hk : 0 < k) :
    F.nearest (num * k) (den * k) = F.nearest num den := by
  unfold nearest
  simp only [Nat.mul_div_mul_right _ _ hk]
  rw [Nat.mul_right_comm den k, roundHalfEven_mul_mul _ _ hk]

/-- From the power of two above the last finite value on, everything is rounded to infinity. -/
theorem nearest_eq_infinity {num den : Nat}
    (h : 2 ^ (F.fractionBits + (2 ^ F.exponentBits - 2)) ≤ num / den) :
    F.nearest num den = F.infinity := by
  have hne : num / den ≠ 0 := by
    have := Nat.two_pow_pos (F.fractionBits + (2 ^ F.exponentBits - 2))
    omega
  have hlog := (Nat.le_log2 hne).mpr h
  have hshift : 2 ^ F.exponentBits - 2 ≤ F.shiftOf num den := by
    unfold shiftOf
    omega
  rw [nearest_eq, Nat.min_eq_right]
  unfold infinity
  rcases (F.fits_nearest num den).2 with h0 | hfull
  · -- Then the format has no binade but the lowest.
    have hsmall : 2 ^ F.exponentBits - 1 ≤ 1 := by omega
    rw [h0, Nat.zero_mul, Nat.zero_add]
    have hlow : 2 ^ F.fractionBits ≤ num / den :=
      Nat.le_trans (Nat.pow_le_pow_right (by decide) (Nat.le_add_right _ _)) h
    have hround := le_roundHalfEven num (den * 2 ^ F.shiftOf num den)
    rw [h0, Nat.pow_zero, Nat.mul_one] at hround
    unfold significandOf
    rw [h0, Nat.pow_zero, Nat.mul_one]
    calc (2 ^ F.exponentBits - 1) * 2 ^ F.fractionBits
        ≤ 1 * 2 ^ F.fractionBits := Nat.mul_le_mul_right _ hsmall
      _ ≤ _ := by rw [Nat.one_mul]; exact Nat.le_trans hlow hround
  · calc (2 ^ F.exponentBits - 1) * 2 ^ F.fractionBits
        ≤ (F.shiftOf num den + 1) * 2 ^ F.fractionBits := Nat.mul_le_mul_right _ (by omega)
      _ = F.shiftOf num den * 2 ^ F.fractionBits + 2 ^ F.fractionBits := by
        rw [Nat.add_mul, Nat.one_mul]
      _ ≤ _ := Nat.add_le_add_left hfull _

/-- Less than half a smallest positive value is rounded to zero. -/
theorem nearest_eq_zero {num den : Nat} (h : 2 * num < den) : F.nearest num den = 0 := by
  have hdiv : num / den = 0 := Nat.div_eq_of_lt (by omega)
  have hshift : F.shiftOf num den = 0 := by
    unfold shiftOf
    rw [hdiv, Nat.log2_zero, Nat.zero_sub]
  have hsignificand : F.significandOf num den = 0 := by
    unfold significandOf roundHalfEven
    simp only [hshift, Nat.pow_zero, Nat.mul_one, hdiv]
    rw [if_pos (.inl (by rwa [Nat.mod_eq_of_lt (by omega)]))]
  rw [nearest_eq, hshift, hsignificand, Nat.zero_mul, Nat.zero_min]

end FloatFormat

namespace Decimal

variable {F : FloatFormat}

/-! ## One rounding of the exact value -/

theorem exactPlace_zero (exponent : Int) : exactPlace F ⟨0, exponent⟩ = 0 := by
  unfold exactPlace
  refine FloatFormat.nearest_eq_zero ?_
  simp

/-- **A decimal is rounded from its exact value**, of whatever size it is. -/
theorem place_eq_exactPlace (hF : 2 ≤ F.exponentBits) (d : Decimal) :
    place F d = exactPlace F d := by
  obtain ⟨digits, exponent⟩ := d
  unfold place order
  simp only
  by_cases hzero : digits = 0
  · rw [if_pos hzero, hzero, exactPlace_zero]
  have hbelow := Digits.lt_pow_of_ofNat digits
  have habove := Digits.pow_le_of_ofNat hzero
  have hlength := List.length_pos_iff.mpr (Digits.ofNat_ne_nil digits)
  have hdouble : 2 ^ F.exponentBits = 2 * 2 ^ (F.exponentBits - 1) := by
    rw [Nat.mul_comm, ← Nat.pow_succ, Nat.succ_eq_add_one, Nat.sub_add_cancel (by omega)]
  have htwo : 2 ≤ 2 ^ (F.exponentBits - 1) := by
    calc 2 = 2 ^ 1 := rfl
      _ ≤ _ := Nat.pow_le_pow_right (by decide) (by omega)
  generalize (Digits.ofNat digits).length = length at *
  rw [if_neg hzero]
  unfold exactPlace FloatFormat.unitsPerOne
  simp only
  by_cases hlarge : ((2 ^ (F.exponentBits - 1) : Nat) : Int) < length + exponent
  · rw [if_pos hlarge]
    generalize 2 ^ (F.exponentBits - 1) = half at *
    refine (FloatFormat.nearest_eq_infinity ?_).symm
    refine (Nat.le_div_iff_mul_le (Nat.pow_pos (by decide))).mpr ?_
    calc 2 ^ (F.fractionBits + (2 ^ F.exponentBits - 2)) * 10 ^ (-exponent).toNat
        = 2 ^ half * 10 ^ (-exponent).toNat * 2 ^ (half - 2 + F.fractionBits) := by
          have hsum : F.fractionBits + (2 * half - 2) = half + (half - 2 + F.fractionBits) := by omega
          rw [hdouble, hsum, Nat.pow_add, Nat.mul_right_comm]
      _ ≤ 10 ^ half * 10 ^ (-exponent).toNat * 2 ^ (half - 2 + F.fractionBits) :=
          Nat.mul_le_mul_right _ (Nat.mul_le_mul_right _ (Nat.pow_le_pow_left (by decide) _))
      _ ≤ 10 ^ (length - 1) * 10 ^ exponent.toNat * 2 ^ (half - 2 + F.fractionBits) := by
          rw [← Nat.pow_add, ← Nat.pow_add]
          exact Nat.mul_le_mul_right _ (Nat.pow_le_pow_right (by decide) (by omega))
      _ ≤ _ := Nat.mul_le_mul_right _ (Nat.mul_le_mul_right _ habove)
  · rw [if_neg hlarge]
    generalize 2 ^ (F.exponentBits - 1) = half at *
    by_cases hsmall : (length : Int) + exponent + ((half + F.fractionBits : Nat) : Int) ≤ 0
    · rw [if_pos hsmall]
      refine (FloatFormat.nearest_eq_zero ?_).symm
      rw [show exponent.toNat = 0 by omega, Nat.pow_zero, Nat.mul_one]
      calc 2 * (digits * 2 ^ (half - 2 + F.fractionBits))
          = digits * 2 ^ (half - 2 + F.fractionBits + 1) := by rw [Nat.pow_succ]; grind
        _ < 10 ^ length * 2 ^ (half - 2 + F.fractionBits + 1) :=
          Nat.mul_lt_mul_of_pos_right hbelow (Nat.two_pow_pos _)
        _ ≤ 10 ^ length * 10 ^ (half - 2 + F.fractionBits + 1) :=
          Nat.mul_le_mul_left _ (Nat.pow_le_pow_left (by decide) _)
        _ = 10 ^ (length + (half - 2 + F.fractionBits + 1)) := (Nat.pow_add ..).symm
        _ ≤ _ := Nat.pow_le_pow_right (by decide) (by omega)
    · rw [if_neg hsmall]

/-! ## Zeros at the end -/

/-- A zero moved from the exponent to the digits changes nothing. -/
theorem exactPlace_shift_one (digits : Nat) (exponent : Int) :
    exactPlace F ⟨digits * 10, exponent - 1⟩ = exactPlace F ⟨digits, exponent⟩ := by
  unfold exactPlace
  simp only
  by_cases hpos : 0 < exponent
  · obtain ⟨n, rfl⟩ := Int.eq_ofNat_of_zero_le (Int.le_of_lt hpos)
    obtain ⟨m, rfl⟩ : ∃ m, n = m + 1 := ⟨n - 1, by omega⟩
    rw [show (((m + 1 : Nat) : Int) - 1).toNat = m by omega,
      show (-(((m + 1 : Nat) : Int) - 1)).toNat = 0 by omega,
      show (-((m + 1 : Nat) : Int)).toNat = 0 by omega, Int.toNat_natCast, Nat.mul_assoc digits 10,
      Nat.pow_succ, Nat.mul_comm 10]
  · rw [show (exponent - 1).toNat = 0 by omega, show exponent.toNat = 0 by omega,
      show (-(exponent - 1)).toNat = (-exponent).toNat + 1 by omega, Nat.pow_zero, Nat.mul_one,
      Nat.mul_one, Nat.pow_succ, Nat.mul_right_comm]
    exact FloatFormat.nearest_mul_mul _ _ (by decide)

/-- **Zeros moved from the exponent to the digits change nothing.** -/
theorem place_shift (hF : 2 ≤ F.exponentBits) (digits : Nat) (exponent : Int) (count : Nat) :
    place F ⟨digits * 10 ^ count, exponent - count⟩ = place F ⟨digits, exponent⟩ := by
  rw [place_eq_exactPlace hF, place_eq_exactPlace hF]
  induction count with
  | zero => simp
  | succ count ih =>
    rw [← ih, Nat.pow_succ, ← Nat.mul_assoc, ← exactPlace_shift_one (digits * 10 ^ count)]
    congr 2
    omega

theorem place_trim (hF : 2 ≤ F.exponentBits) (d : Decimal) : place F d.trim = place F d := by
  fun_induction trim d with
  | case1 d h ih =>
    rw [ih, ← place_shift hF _ _ 1, Nat.pow_one, Nat.div_mul_cancel (Nat.dvd_of_mod_eq_zero h.2)]
    simp
  | case2 d h => rfl

/-! ## The shortest decimal -/

/-- The exact expansion of a finite number reads back as it. -/
theorem place_exact (hF : 2 ≤ F.exponentBits) {magnitude : Nat} (h : magnitude < F.infinity) :
    place F (exact F magnitude) = magnitude := by
  rw [place_eq_exactPlace hF]
  unfold exactPlace exact
  have hone : F.unitsPerOne = 2 ^ Nat.log2 F.unitsPerOne := by
    unfold FloatFormat.unitsPerOne
    rw [Nat.log2_two_pow]
  generalize Nat.log2 F.unitsPerOne = shift at *
  have hden : 10 ^ shift = 5 ^ shift * F.unitsPerOne := by
    rw [hone, ← Nat.mul_pow]
  simp only [Int.neg_neg, Int.toNat_natCast]
  rw [show (-(shift : Int)).toNat = 0 by omega, Nat.pow_zero, Nat.mul_one, hden, Nat.mul_assoc]
  exact FloatFormat.nearest_units h (Nat.mul_pos (Nat.pow_pos (by decide)) F.unitsPerOne_pos)

theorem place_neighbour {tie : Tie} {magnitude : Nat} {exponent : Int} {d : Decimal}
    (h : neighbour? F tie magnitude exponent = some d) : place F d = magnitude := by
  unfold neighbour? at h
  simp only at h
  unfold readsBack at h
  split at h
  · rename_i hbelow habove
    simp only [beq_iff_eq] at hbelow habove
    (repeat' split at h) <;> cases h <;> assumption
  · rename_i hbelow _
    cases h
    exact beq_iff_eq.mp hbelow
  · rename_i _ habove
    cases h
    exact beq_iff_eq.mp habove
  · cases h

/-- **The shortest decimal of a finite number reads back as it.** -/
theorem place_shortest (hF : 2 ≤ F.exponentBits) (tie : Tie) {magnitude : Nat}
    (h : magnitude < F.infinity) : place F (shortest F tie magnitude) = magnitude := by
  unfold shortest
  split
  · rename_i h0
    rw [h0]
    exact if_pos rfl
  · simp only
    rw [place_trim hF]
    cases hfound : (List.range 17).findSome? fun (further : Nat) =>
        neighbour? F tie magnitude (leadingExponent F (F.units magnitude) - further) with
    | none => exact place_exact hF h
    | some d =>
      obtain ⟨further, -, hneighbour⟩ := List.exists_of_findSome?_eq_some hfound
      exact place_neighbour hneighbour

end Decimal

end CommandLink
