import CommandLink.Float.Format
import Mathlib.Tactic.Linarith

/-!
# Rounding to a place

What `FloatFormat.nearest` does to an exact quotient of natural numbers, in smallest positive
values (`FloatFormat.units`). No rational numbers are needed: a bound on the error of `num / den` is
stated after multiplication by `den`.

* `units_place`: the value at a place, from the binade (`shift`) and the significand.
* `nearest_units`: a value that has a place is rounded to that place.
* `exact_mul_two_pow`: the numbers with few enough significant bits have a place.
* `near_nearest`: one rounding to a finite place is off by at most one unit in the last of
  `fractionBits + 1` bits, or by half a smallest positive value.
* `nearest_lt_infinity`, `nearest_lt_infinity_of_lt`: what is small enough is rounded to a finite
  place; the second reaches up to the middle behind the last finite value.
* `units_mul_le`: no finite value is larger than about the square of one.
-/

namespace CommandLink

namespace FloatFormat

variable {F : FloatFormat}

/-! ## Rounding to an integer -/

theorem le_roundHalfEven (num den : Nat) : num / den ≤ roundHalfEven num den := by
  unfold roundHalfEven
  simp only []
  split <;> omega

theorem roundHalfEven_le (num den : Nat) : roundHalfEven num den ≤ num / den + 1 := by
  unfold roundHalfEven
  simp only []
  split <;> omega

/-- The rounded quotient is within half a unit of the quotient: `|r * den - num| ≤ den / 2`. -/
theorem roundHalfEven_error (num : Nat) {den : Nat} (hden : 0 < den) :
    2 * (roundHalfEven num den * den) ≤ 2 * num + den ∧
      2 * num ≤ 2 * (roundHalfEven num den * den) + den := by
  have hdm := Nat.div_add_mod num den
  have hr := Nat.mod_lt num hden
  unfold roundHalfEven
  simp only []
  generalize num / den = q at *
  generalize num % den = r at *
  rw [Nat.mul_comm] at hdm
  split
  · omega
  · rw [Nat.add_mul]
    omega

/-- An integer is its own rounding. -/
theorem roundHalfEven_mul (n : Nat) {k : Nat} (hk : 0 < k) : roundHalfEven (n * k) k = n := by
  unfold roundHalfEven
  simp only []
  rw [Nat.mul_div_cancel _ hk, Nat.mul_mod_left, if_pos (Or.inl (by omega))]

/-! ## Places and values -/

/-- A binade and a significand that fits it: only the lowest binade has small significands. A
significand of `2 ^ (fractionBits + 1)` is the carry into the next binade. -/
def Fits (F : FloatFormat) (shift significand : Nat) : Prop :=
  significand ≤ 2 ^ (F.fractionBits + 1) ∧ (shift = 0 ∨ 2 ^ F.fractionBits ≤ significand)

/-- The value at the place of a significand in a binade. -/
theorem units_place {shift significand : Nat} (h : F.Fits shift significand) :
    F.units (shift * 2 ^ F.fractionBits + significand) = significand * 2 ^ shift := by
  obtain ⟨hle, hlow⟩ := h
  have hpos : 0 < 2 ^ F.fractionBits := Nat.two_pow_pos _
  rw [Nat.pow_succ] at hle
  unfold units
  by_cases hsmall : significand < 2 ^ F.fractionBits
  · have hs : shift = 0 := by omega
    subst hs
    rw [Nat.zero_mul, Nat.zero_add, if_pos hsmall, Nat.pow_zero, Nat.mul_one]
  · obtain ⟨r, rfl⟩ : ∃ r, significand = 2 ^ F.fractionBits + r :=
      ⟨significand - 2 ^ F.fractionBits, by omega⟩
    rw [if_neg (by omega)]
    by_cases hr : r < 2 ^ F.fractionBits
    · have e : shift * 2 ^ F.fractionBits + (2 ^ F.fractionBits + r) =
          r + 2 ^ F.fractionBits * (shift + 1) := by
        rw [Nat.mul_add, Nat.mul_comm shift]; omega
      rw [e, Nat.add_mul_mod_self_left, Nat.mod_eq_of_lt hr, Nat.add_mul_div_left _ _ hpos,
        Nat.div_eq_of_lt hr, Nat.zero_add, Nat.add_sub_cancel]
    · -- The carry: the place is the first of the binade above.
      have hr' : r = 2 ^ F.fractionBits := by omega
      subst hr'
      have e : shift * 2 ^ F.fractionBits + (2 ^ F.fractionBits + 2 ^ F.fractionBits) =
          0 + 2 ^ F.fractionBits * (shift + 2) := by
        rw [Nat.mul_add, Nat.mul_comm shift]; omega
      rw [e, Nat.add_mul_mod_self_left, Nat.zero_mod, Nat.add_mul_div_left _ _ hpos, Nat.zero_div,
        Nat.zero_add, Nat.add_zero, show shift + 2 - 1 = shift + 1 by omega, Nat.pow_succ,
        ← Nat.two_mul]
      grind

/-- Every place is that of a significand without carry. -/
theorem exists_place (F : FloatFormat) (place : Nat) :
    ∃ shift significand, F.Fits shift significand ∧ significand < 2 ^ (F.fractionBits + 1) ∧
      place = shift * 2 ^ F.fractionBits + significand := by
  have hpos : 0 < 2 ^ F.fractionBits := Nat.two_pow_pos _
  have hdm := Nat.div_add_mod place (2 ^ F.fractionBits)
  have hr := Nat.mod_lt place hpos
  unfold Fits
  rw [Nat.pow_succ]
  rcases hd : place / 2 ^ F.fractionBits with _ | shift
  · rw [hd] at hdm
    exact ⟨0, place, ⟨by omega, .inl rfl⟩, by omega, by omega⟩
  · rw [hd, Nat.mul_add, Nat.mul_comm] at hdm
    exact ⟨shift, 2 ^ F.fractionBits + place % 2 ^ F.fractionBits, ⟨by omega, .inr (by omega)⟩,
      by omega, by omega⟩

/-! ## The nearest place -/

/-- The binade that a quotient is rounded in. -/
def shiftOf (F : FloatFormat) (num den : Nat) : Nat := Nat.log2 (num / den) - F.fractionBits

/-- The significand that a quotient is rounded to. -/
def significandOf (F : FloatFormat) (num den : Nat) : Nat :=
  roundHalfEven num (den * 2 ^ F.shiftOf num den)

theorem nearest_eq (F : FloatFormat) (num den : Nat) : F.nearest num den =
    min (F.shiftOf num den * 2 ^ F.fractionBits + F.significandOf num den) F.infinity := rfl

theorem div_lt_of_shiftOf (F : FloatFormat) (num den : Nat) :
    num / den < 2 ^ (F.shiftOf num den + F.fractionBits + 1) := by
  have h : num / den < 2 ^ (Nat.log2 (num / den) + 1) := Nat.lt_log2_self
  refine Nat.lt_of_lt_of_le h (Nat.pow_le_pow_right (by decide) ?_)
  unfold shiftOf
  omega

theorem le_div_of_shiftOf {num den : Nat} (h : F.shiftOf num den ≠ 0) :
    2 ^ (F.shiftOf num den + F.fractionBits) ≤ num / den := by
  have hne : num / den ≠ 0 := by
    intro h0
    unfold shiftOf at h
    rw [h0, Nat.log2_zero, Nat.zero_sub] at h
    exact h rfl
  have hlog := Nat.log2_self_le hne
  unfold shiftOf at h ⊢
  rwa [Nat.sub_add_cancel (by omega)]

theorem fits_nearest (F : FloatFormat) (num den : Nat) :
    F.Fits (F.shiftOf num den) (F.significandOf num den) := by
  have hle := roundHalfEven_le num (den * 2 ^ F.shiftOf num den)
  have hge := le_roundHalfEven num (den * 2 ^ F.shiftOf num den)
  rw [← Nat.div_div_eq_div_mul] at hle hge
  have hpow : 0 < 2 ^ F.shiftOf num den := Nat.two_pow_pos _
  constructor
  · have hlt := F.div_lt_of_shiftOf num den
    rw [Nat.add_assoc, Nat.pow_add] at hlt
    have := (Nat.div_lt_iff_lt_mul hpow).mpr (Nat.mul_comm _ _ ▸ hlt)
    exact Nat.le_trans hle this
  · by_cases hs : F.shiftOf num den = 0
    · exact .inl hs
    · have h := le_div_of_shiftOf hs
      rw [Nat.add_comm, Nat.pow_add] at h
      exact .inr (Nat.le_trans ((Nat.le_div_iff_mul_le hpow).mpr h) hge)

/-- The value that a quotient is rounded to, if that is finite. -/
theorem units_nearest {num den : Nat} (h : F.nearest num den < F.infinity) :
    F.units (F.nearest num den) = F.significandOf num den * 2 ^ F.shiftOf num den := by
  rw [nearest_eq] at h ⊢
  rw [Nat.min_eq_left (by omega), units_place (F.fits_nearest num den)]

/-! ## Exact values -/

theorem unitsPerOne_pos (F : FloatFormat) : 0 < F.unitsPerOne := Nat.two_pow_pos _

theorem two_pow_le_unitsPerOne {n : Nat} (h : n ≤ 2 ^ (F.exponentBits - 1) - 2 + F.fractionBits) :
    2 ^ n ≤ F.unitsPerOne := Nat.pow_le_pow_right (by decide) h

/-- A value that has a place is rounded to that place. -/
theorem nearest_units {place k : Nat} (hplace : place < F.infinity) (hk : 0 < k) :
    F.nearest (F.units place * k) k = place := by
  obtain ⟨shift, significand, hfits, hlt, rfl⟩ := F.exists_place place
  rw [units_place hfits]
  have hdiv : significand * 2 ^ shift * k / k = significand * 2 ^ shift :=
    Nat.mul_div_cancel _ hk
  have hshift : F.shiftOf (significand * 2 ^ shift * k) k = shift := by
    unfold shiftOf
    rw [hdiv]
    rcases hfits.2 with h0 | hge
    · subst h0
      rw [Nat.pow_zero, Nat.mul_one]
      by_cases hz : significand = 0
      · rw [hz, Nat.log2_zero, Nat.zero_sub]
      · have := (Nat.log2_lt hz).mpr hlt
        omega
    · have hne : significand * 2 ^ shift ≠ 0 :=
        Nat.mul_ne_zero (by have := Nat.two_pow_pos F.fractionBits; omega)
          (Nat.two_pow_pos _).ne'
      have hlog : Nat.log2 (significand * 2 ^ shift) = F.fractionBits + shift := by
        rw [Nat.log2_eq_iff hne, Nat.pow_add, Nat.add_right_comm, Nat.pow_add]
        exact ⟨Nat.mul_le_mul_right _ hge, Nat.mul_lt_mul_of_pos_right hlt (Nat.two_pow_pos _)⟩
      rw [hlog, Nat.add_sub_cancel_left]
  rw [nearest_eq, significandOf, hshift, Nat.mul_assoc, Nat.mul_comm (2 ^ shift),
    roundHalfEven_mul _ (Nat.mul_pos hk (Nat.two_pow_pos _)), Nat.min_eq_left (Nat.le_of_lt hplace)]

/-- A number of smallest positive values that is the value at a finite place. -/
def Exact (F : FloatFormat) (n : Nat) : Prop := ∃ place, place < F.infinity ∧ F.units place = n

theorem exact_units {place : Nat} (h : place < F.infinity) : F.Exact (F.units place) :=
  ⟨place, h, rfl⟩

/-- An exact value is not changed by rounding. -/
theorem Exact.nearest {n k : Nat} (h : F.Exact n) (hk : 0 < k) :
    F.nearest (n * k) k < F.infinity ∧ F.units (F.nearest (n * k) k) = n := by
  obtain ⟨place, hplace, rfl⟩ := h
  rw [nearest_units hplace hk]
  exact ⟨hplace, rfl⟩

theorem place_lt_infinity (shift : Nat) {significand : Nat}
    (h : significand ≤ 2 ^ (F.fractionBits + 1)) (hs : shift + 3 < 2 ^ F.exponentBits) :
    shift * 2 ^ F.fractionBits + significand < F.infinity := by
  have hpos : 0 < 2 ^ F.fractionBits := Nat.two_pow_pos _
  have hle : (shift + 3) * 2 ^ F.fractionBits ≤ F.infinity :=
    Nat.mul_le_mul_right _ (by omega)
  rw [Nat.pow_succ] at h
  rw [Nat.add_mul] at hle
  omega

/-- A number with at most `fractionBits + 1` significant bits is exact unless it is too large. -/
theorem exact_mul_two_pow {a e : Nat} (ha : a < 2 ^ (F.fractionBits + 1))
    (he : e + 3 < 2 ^ F.exponentBits) : F.Exact (a * 2 ^ e) := by
  by_cases hz : a = 0
  · refine ⟨0, ?_, ?_⟩
    · exact Nat.mul_pos (by omega) (Nat.two_pow_pos _)
    · rw [hz, Nat.zero_mul]
      unfold units
      rw [if_pos (Nat.two_pow_pos _)]
  have hlog : Nat.log2 a ≤ F.fractionBits := by
    have := (Nat.log2_lt hz).mpr ha
    omega
  have hlo := Nat.log2_self_le hz
  have hhi : a < 2 ^ (Nat.log2 a + 1) := Nat.lt_log2_self
  generalize Nat.log2 a = l at hlog hlo hhi
  by_cases hsmall : l + e ≤ F.fractionBits
  · -- The number is a significand of the lowest binade.
    have hlt : a * 2 ^ e < 2 ^ (F.fractionBits + 1) := by
      calc a * 2 ^ e < 2 ^ (l + 1) * 2 ^ e := Nat.mul_lt_mul_of_pos_right hhi (Nat.two_pow_pos _)
        _ = 2 ^ (l + 1 + e) := (Nat.pow_add ..).symm
        _ ≤ 2 ^ (F.fractionBits + 1) := Nat.pow_le_pow_right (by decide) (by omega)
    have hfits : F.Fits 0 (a * 2 ^ e) := ⟨Nat.le_of_lt hlt, .inl rfl⟩
    refine ⟨_, place_lt_infinity 0 hfits.1 (by omega), ?_⟩
    rw [units_place hfits, Nat.pow_zero, Nat.mul_one]
  · -- The number moves up to a full significand.
    obtain ⟨up, hup⟩ : ∃ up, F.fractionBits = l + up := ⟨F.fractionBits - l, by omega⟩
    obtain ⟨shift, rfl⟩ : ∃ shift, e = up + shift := ⟨e - up, by omega⟩
    have hfits : F.Fits shift (a * 2 ^ up) := by
      constructor
      · rw [hup, show l + up + 1 = l + 1 + up by omega, Nat.pow_add]
        exact Nat.mul_le_mul_right _ (Nat.le_of_lt hhi)
      · rw [hup, Nat.pow_add]
        exact .inr (Nat.mul_le_mul_right _ hlo)
    refine ⟨_, place_lt_infinity shift hfits.1 (by omega), ?_⟩
    rw [units_place hfits, Nat.pow_add, Nat.mul_assoc]

/-- So are the integers with at most `fractionBits + 1` bits. -/
theorem exact_mul_unitsPerOne {n : Nat} (hn : n < 2 ^ (F.fractionBits + 1))
    (h : 2 ^ (F.exponentBits - 1) - 2 + F.fractionBits + 3 < 2 ^ F.exponentBits) :
    F.Exact (n * F.unitsPerOne) := exact_mul_two_pow hn h

/-- A finite value is a significand of `fractionBits + 1` bits times a power of two. -/
theorem exists_units {place : Nat} (h : place < F.infinity) :
    ∃ a e, a < 2 ^ (F.fractionBits + 1) ∧ e + 1 < 2 ^ F.exponentBits ∧
      F.units place = a * 2 ^ e := by
  obtain ⟨shift, significand, hfits, hlt, rfl⟩ := F.exists_place place
  refine ⟨significand, shift, hlt, ?_, units_place hfits⟩
  have hle : shift * 2 ^ F.fractionBits < (2 ^ F.exponentBits - 1) * 2 ^ F.fractionBits :=
    Nat.lt_of_le_of_lt (Nat.le_add_right _ _) h
  have := Nat.lt_of_mul_lt_mul_right hle
  omega

/-! ## Bounds -/

/-- A finite value is at most about the square of one, in smallest positive values. -/
theorem units_mul_le {place : Nat} (h : place < F.infinity) (hbits : 2 ≤ F.exponentBits) :
    F.units place * 2 ^ F.fractionBits ≤ 8 * (F.unitsPerOne * F.unitsPerOne) := by
  obtain ⟨a, e, ha, he, hu⟩ := exists_units h
  obtain ⟨bits, hb⟩ : ∃ bits, F.exponentBits = bits + 2 := ⟨F.exponentBits - 2, by omega⟩
  have hpos : 0 < 2 ^ bits := Nat.two_pow_pos _
  unfold unitsPerOne
  rw [hu, hb, show (8 : Nat) = 2 ^ 3 from rfl, ← Nat.pow_add, ← Nat.pow_add,
    show bits + 2 - 1 = bits + 1 by omega, Nat.pow_succ]
  rw [hb, Nat.pow_succ, Nat.pow_succ] at he
  calc a * 2 ^ e * 2 ^ F.fractionBits
      ≤ 2 ^ (F.fractionBits + 1) * 2 ^ e * 2 ^ F.fractionBits :=
        Nat.mul_le_mul_right _ (Nat.mul_le_mul_right _ (Nat.le_of_lt ha))
    _ = 2 ^ (F.fractionBits + 1 + e + F.fractionBits) := by rw [← Nat.pow_add, ← Nat.pow_add]
    _ ≤ _ := Nat.pow_le_pow_right (by decide) (by omega)

/-- `value` is near `num / den`: `2 ^ (fractionBits + 1) * |value - num / den|` is at most
`num / den`, or at most `2 ^ fractionBits` for a subnormal quotient. -/
structure Near (F : FloatFormat) (num den value : Nat) : Prop where
  upper : 2 ^ (F.fractionBits + 1) * (value * den) ≤
    2 ^ (F.fractionBits + 1) * num + max num (den * 2 ^ F.fractionBits)
  lower : 2 ^ (F.fractionBits + 1) * num ≤
    2 ^ (F.fractionBits + 1) * (value * den) + max num (den * 2 ^ F.fractionBits)

/-- **The error of one rounding** to a finite value. -/
theorem near_nearest {num den : Nat} (hden : 0 < den) (h : F.nearest num den < F.infinity) :
    F.Near num den (F.units (F.nearest num den)) := by
  rw [units_nearest h]
  have hD : 0 < den * 2 ^ F.shiftOf num den := Nat.mul_pos hden (Nat.two_pow_pos _)
  obtain ⟨h1, h2⟩ := roundHalfEven_error num hD
  have hulp : den * 2 ^ F.shiftOf num den * 2 ^ F.fractionBits ≤
      max num (den * 2 ^ F.fractionBits) := by
    by_cases hs : F.shiftOf num den = 0
    · rw [hs, Nat.pow_zero, Nat.mul_one]
      exact Nat.le_max_right _ _
    · have hle := (Nat.le_div_iff_mul_le hden).mp (le_div_of_shiftOf hs)
      rw [Nat.mul_assoc, ← Nat.pow_add, Nat.mul_comm]
      exact Nat.le_trans hle (Nat.le_max_left _ _)
  have e : F.significandOf num den * 2 ^ F.shiftOf num den * den =
      roundHalfEven num (den * 2 ^ F.shiftOf num den) * (den * 2 ^ F.shiftOf num den) := by
    unfold significandOf
    grind
  generalize roundHalfEven num (den * 2 ^ F.shiftOf num den) * (den * 2 ^ F.shiftOf num den) = r
    at *
  generalize den * 2 ^ F.shiftOf num den = D at *
  have p1 := Nat.mul_le_mul_right (2 ^ F.fractionBits) h1
  have p2 := Nat.mul_le_mul_right (2 ^ F.fractionBits) h2
  constructor <;> rw [e, Nat.pow_succ] <;> nlinarith

/-- A quotient below `2 ^ (fractionBits + t)` is rounded to a finite value if `t` is an exponent. -/
theorem nearest_lt_infinity {num den t : Nat} (h : num / den < 2 ^ (F.fractionBits + t))
    (ht : t + 3 < 2 ^ F.exponentBits) : F.nearest num den < F.infinity := by
  have hshift : F.shiftOf num den ≤ t := by
    unfold shiftOf
    by_cases hz : num / den = 0
    · rw [hz, Nat.log2_zero, Nat.zero_sub]
      exact Nat.zero_le _
    · have := (Nat.log2_lt hz).mpr h
      omega
  rw [nearest_eq]
  exact Nat.lt_of_le_of_lt (Nat.min_le_left _ _)
    (place_lt_infinity _ (F.fits_nearest num den).1 (by omega))

/-- **What lies below the middle between the last finite value and the power of two above it** is
rounded to a finite value. `top` is the last binade. -/
theorem nearest_lt_infinity_of_lt {num den top : Nat} (htop : 2 ^ F.exponentBits = top + 3)
    (h : 2 * num < (2 ^ (F.fractionBits + 2) - 1) * (den * 2 ^ top)) :
    F.nearest num den < F.infinity := by
  have hden : 0 < den := by
    rcases Nat.eq_zero_or_pos den with rfl | hden
    · rw [Nat.zero_mul, Nat.mul_zero] at h
      exact absurd h (Nat.not_lt_zero _)
    · exact hden
  have hD : 0 < den * 2 ^ top := Nat.mul_pos hden (Nat.two_pow_pos _)
  have hfull : 2 ^ (F.fractionBits + 2) = 2 * 2 ^ (F.fractionBits + 1) := by
    rw [Nat.pow_succ, Nat.mul_comm]
  have hbelow : 2 * num + den * 2 ^ top < 2 * (2 ^ (F.fractionBits + 1) * (den * 2 ^ top)) := by
    rw [hfull, Nat.sub_mul, Nat.one_mul, Nat.mul_assoc] at h
    omega
  have hquotient : num / den < 2 ^ (F.fractionBits + 1 + top) := by
    refine (Nat.div_lt_iff_lt_mul hden).mpr ?_
    rw [Nat.pow_add, Nat.mul_assoc, Nat.mul_comm (2 ^ top)]
    omega
  have hshift : F.shiftOf num den ≤ top := by
    unfold shiftOf
    by_cases hz : num / den = 0
    · rw [hz, Nat.log2_zero, Nat.zero_sub]
      exact Nat.zero_le _
    · have := (Nat.log2_lt hz).mpr hquotient
      omega
  rw [nearest_eq]
  refine Nat.lt_of_le_of_lt (Nat.min_le_left _ _) ?_
  rcases Nat.lt_or_eq_of_le hshift with hlow | hlast
  · exact place_lt_infinity _ (F.fits_nearest num den).1 (by omega)
  · -- In the last binade the significand must not be carried into the next one.
    obtain ⟨herror, -⟩ := roundHalfEven_error num hD
    have hsignificand : F.significandOf num den < 2 ^ (F.fractionBits + 1) := by
      unfold significandOf
      rw [hlast]
      refine Nat.lt_of_mul_lt_mul_right (a := den * 2 ^ top) ?_
      omega
    unfold infinity
    rw [hlast, htop, show top + 3 - 1 = top + 2 from rfl, Nat.add_mul]
    rw [Nat.pow_succ] at hsignificand
    omega

end FloatFormat

end CommandLink
