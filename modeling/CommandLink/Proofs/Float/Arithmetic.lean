import CommandLink.Float.Basic
import CommandLink.Proofs.Float.Rounding

/-!
# Products, quotients and integers of finite numbers

`Binary.mul` and `Binary.div` round the exact result once (`mul_of_isFinite`, `div_of_isFinite`), so
their error is that of one rounding (`near_mul`, `near_div`); a product that is not too large is
finite (`isFinite_mul`). `toInt?_eq` says when a finite number is rounded to a given integer.
-/

namespace CommandLink

namespace Binary

variable {F : FloatFormat}

/-! ## Kinds of numbers -/

theorem isFinite_iff {x : Binary F} : x.isFinite = true ↔ x.magnitude < F.infinity := by
  unfold isFinite
  exact decide_eq_true_iff

theorem isNaN_of_isFinite {x : Binary F} (h : x.isFinite = true) : x.isNaN = false := by
  rw [isFinite_iff] at h
  unfold isNaN
  exact decide_eq_false (by omega)

theorem isInfinite_of_isFinite {x : Binary F} (h : x.isFinite = true) : x.isInfinite = false := by
  rw [isFinite_iff] at h
  unfold isInfinite
  exact beq_false_of_ne (by omega)

theorem units_eq_zero {x : Binary F} (h : x.units = 0) : x.magnitude = 0 := by
  unfold units FloatFormat.units at h
  split at h
  · exact h
  · rcases Nat.mul_eq_zero.mp h with h | h
    · have := Nat.two_pow_pos F.fractionBits
      omega
    · exact absurd h (Nat.two_pow_pos _).ne'

theorem units_round (negative : Bool) (num den : Nat) :
    (round negative num den : Binary F).units = F.units (F.nearest num den) := rfl

theorem negative_round (negative : Bool) (num den : Nat) :
    (round negative num den : Binary F).negative = negative := rfl

theorem isFinite_round {negative : Bool} {num den : Nat} :
    (round negative num den : Binary F).isFinite = true ↔ F.nearest num den < F.infinity :=
  isFinite_iff

/-! ## Products and quotients -/

variable {x y : Binary F}

theorem div_of_isFinite (hx : x.isFinite = true) (hy : y.isFinite = true)
    (h0 : y.isZero = false) :
    x.div y = round (x.negative != y.negative) (x.units * F.unitsPerOne) y.units := by
  unfold div
  simp only [isNaN_of_isFinite hx, isNaN_of_isFinite hy, isInfinite_of_isFinite hx,
    isInfinite_of_isFinite hy, h0, Bool.or_self, Bool.false_eq_true, ↓reduceIte]

theorem mul_of_isFinite (hx : x.isFinite = true) (hy : y.isFinite = true) :
    x.mul y = round (x.negative != y.negative) (x.units * y.units) F.unitsPerOne := by
  unfold mul
  simp only [isNaN_of_isFinite hx, isNaN_of_isFinite hy, isInfinite_of_isFinite hx,
    isInfinite_of_isFinite hy, Bool.or_self, Bool.false_eq_true, ↓reduceIte]

theorem negative_div (hx : x.isFinite = true) (hy : y.isFinite = true) (h0 : y.isZero = false) :
    (x.div y).negative = (x.negative != y.negative) := by
  rw [div_of_isFinite hx hy h0]
  rfl

theorem negative_mul (hx : x.isFinite = true) (hy : y.isFinite = true) :
    (x.mul y).negative = (x.negative != y.negative) := by
  rw [mul_of_isFinite hx hy]
  rfl

/-- **The error of a quotient** of finite numbers. -/
theorem near_div (hx : x.isFinite = true) (hy : y.isFinite = true) (h0 : y.isZero = false)
    (hpos : 0 < y.units) (h : (x.div y).isFinite = true) :
    F.Near (x.units * F.unitsPerOne) y.units (x.div y).units := by
  rw [div_of_isFinite hx hy h0] at h ⊢
  exact FloatFormat.near_nearest hpos (isFinite_iff.mp h)

/-- **The error of a product** of finite numbers. -/
theorem near_mul (hx : x.isFinite = true) (hy : y.isFinite = true)
    (h : (x.mul y).isFinite = true) :
    F.Near (x.units * y.units) F.unitsPerOne (x.mul y).units := by
  rw [mul_of_isFinite hx hy] at h ⊢
  exact FloatFormat.near_nearest F.unitsPerOne_pos (isFinite_iff.mp h)

/-- A product of finite numbers below `2 ^ t` is finite. -/
theorem isFinite_mul (t : Nat) (hx : x.isFinite = true) (hy : y.isFinite = true)
    (h : x.units * y.units < 2 ^ t * (F.unitsPerOne * F.unitsPerOne))
    (ht : t + 2 ^ (F.exponentBits - 1) + 3 < 2 ^ F.exponentBits) : (x.mul y).isFinite = true := by
  have hpos := Nat.two_pow_pos (F.exponentBits - 1)
  rw [mul_of_isFinite hx hy]
  refine isFinite_iff.mpr (FloatFormat.nearest_lt_infinity (t := t + (2 ^ (F.exponentBits - 1) - 2))
    ((Nat.div_lt_iff_lt_mul F.unitsPerOne_pos).mpr ?_) (by omega))
  have e : 2 ^ (F.fractionBits + (t + (2 ^ (F.exponentBits - 1) - 2))) = 2 ^ t * F.unitsPerOne := by
    unfold FloatFormat.unitsPerOne
    rw [← Nat.pow_add]
    congr 1
    omega
  rwa [e, Nat.mul_assoc]

/-! ## The nearest integer -/

/-- A finite number within less than a half of a natural number is rounded to it. -/
theorem toInt?_eq {n : Nat} (hx : x.isFinite = true) (hlo : 2 * n * F.unitsPerOne ≤
    2 * x.units + F.unitsPerOne) (hhi : 2 * x.units < (2 * n + 1) * F.unitsPerOne) :
    x.toInt? = some (if x.negative then -(n : Int) else n) := by
  have hn : (2 * (x.units : Int) + F.unitsPerOne) / (2 * F.unitsPerOne) = n := by
    have : (2 * x.units + F.unitsPerOne) / (2 * F.unitsPerOne) = n := by
      apply Nat.div_eq_of_lt_le
      · rw [← Nat.mul_assoc, Nat.mul_comm n]
        exact hlo
      · rw [Nat.add_mul] at hhi ⊢
        rw [← Nat.mul_assoc, Nat.mul_comm n]
        omega
    exact_mod_cast congrArg (Nat.cast : Nat → Int) this
  unfold toInt?
  rw [if_pos hx]
  simp only [hn]

end Binary

end CommandLink
