import CommandLink.Proofs.Float.Spacing

/-!
# Values with a sign

What a finite number stands for is a whole number of smallest positive values, with a sign (`exact`), or
a rational number (`value`). Products and nearest integers are rounded magnitudes with a sign, so what
holds of magnitudes holds of values on either side of zero.

* `Signed`: errors and orders of magnitudes, carried over to both signs.
* `exact_mul_error`: the error of a product; `exact_mul_le`: a product with a positive number keeps the
  order.
* `rounded_error`, `rounded_le`, `rounded_neg`: the nearest integer is within a half, keeps the order and
  turns its sign with the number.
-/

namespace CommandLink

/-! ## Signs -/

/-- A magnitude with a sign. -/
def signed (negative : Bool) (n : Nat) : Int := if negative then -n else n

section Signed

variable {a b : Bool} {m n m' n' c : Nat}

theorem signed_mul_signed (a b : Bool) (m n : Nat) :
    signed a m * signed b n = signed (a != b) (m * n) := by
  unfold signed
  cases a <;> cases b <;> simp

theorem signed_not (a : Bool) (n : Nat) : signed (!a) n = -signed a n := by
  unfold signed
  cases a <;> simp

theorem signed_mul_natCast (a : Bool) (m n : Nat) : signed a m * n = signed a (m * n) := by
  unfold signed
  cases a <;> simp

theorem natAbs_signed (a : Bool) (n : Nat) : (signed a n).natAbs = n := by
  unfold signed
  cases a <;> simp

/-- Magnitudes that are near to each other are so with the same sign. -/
theorem signed_error (a : Bool) (hupper : 2 * m ≤ 2 * n + c) (hlower : 2 * n ≤ 2 * m + c) :
    2 * signed a m ≤ 2 * signed a n + c ∧ 2 * signed a n ≤ 2 * signed a m + c := by
  unfold signed
  cases a <;> simp only [Bool.false_eq_true, ↓reduceIte] <;> omega

/-- A map of magnitudes that keeps their order and zero keeps the order with signs. -/
theorem signed_le_signed (hle : signed a m ≤ signed b n) (hup : m ≤ n → m' ≤ n')
    (hdown : n ≤ m → n' ≤ m') (hm : m = 0 → m' = 0) (hn : n = 0 → n' = 0) :
    signed a m' ≤ signed b n' := by
  unfold signed at *
  cases a <;> cases b <;> simp only [Bool.false_eq_true, ↓reduceIte] at * <;> omega

end Signed

namespace Binary

variable {F : FloatFormat} {x y s : Binary F}

/-! ## Values -/

/-- The exact value of a finite number, in smallest positive values. -/
def exact (x : Binary F) : Int := if x.negative then -x.units else x.units

/-- The exact value of a finite number. -/
def value (x : Binary F) : Rat := x.exact / F.unitsPerOne

/-- The number with the other sign. -/
def neg (x : Binary F) : Binary F := { x with negative := !x.negative }

theorem exact_eq (x : Binary F) : x.exact = signed x.negative x.units := rfl

theorem exact_mul_exact (x y : Binary F) :
    x.exact * y.exact = signed (x.negative != y.negative) (x.units * y.units) :=
  signed_mul_signed _ _ _ _

theorem unitsPerOne_pos_rat (F : FloatFormat) : (0 : Rat) < F.unitsPerOne :=
  Rat.natCast_pos.mpr F.unitsPerOne_pos

theorem value_mul (x : Binary F) : x.value * F.unitsPerOne = x.exact := by
  have hne : (F.unitsPerOne : Rat) ≠ 0 := (unitsPerOne_pos_rat F).ne'
  unfold value
  grind

theorem value_le_value : x.value ≤ y.value ↔ x.exact ≤ y.exact := by
  rw [← Rat.intCast_le_intCast, ← value_mul, ← value_mul,
    mul_le_mul_iff_of_pos_right (unitsPerOne_pos_rat F)]

/-! ## Products -/

theorem isFinite_neg (x : Binary F) : x.neg.isFinite = x.isFinite := rfl

theorem neg_mul (hx : x.isFinite = true) (hs : s.isFinite = true) :
    x.neg.mul s = (x.mul s).neg := by
  have hnegx : x.neg.isFinite = true := hx
  rw [mul_of_isFinite hnegx hs, mul_of_isFinite hx hs]
  unfold neg round
  cases x.negative <;> cases s.negative <;> rfl

theorem exact_mul (hx : x.isFinite = true) (hs : s.isFinite = true) :
    (x.mul s).exact = signed (x.negative != s.negative)
      (F.units (F.nearest (x.units * s.units) F.unitsPerOne)) := by
  rw [exact_eq, negative_mul hx hs, mul_of_isFinite hx hs, units_round]

theorem nearest_lt_infinity_of_mul (hx : x.isFinite = true) (hs : s.isFinite = true)
    (hfinite : (x.mul s).isFinite = true) :
    F.nearest (x.units * s.units) F.unitsPerOne < F.infinity := by
  rwa [mul_of_isFinite hx hs, isFinite_round] at hfinite

/-- **The error of a product** below a power of two. -/
theorem exact_mul_error {t : Nat} (hx : x.isFinite = true) (hs : s.isFinite = true)
    (hfinite : (x.mul s).isFinite = true)
    (hlt : x.units * s.units < 2 ^ (F.fractionBits + 1 + t) * F.unitsPerOne) :
    2 * ((x.mul s).exact * F.unitsPerOne) ≤
        2 * (x.exact * s.exact) + (2 ^ t * F.unitsPerOne : Nat) ∧
      2 * (x.exact * s.exact) ≤
        2 * ((x.mul s).exact * F.unitsPerOne) + (2 ^ t * F.unitsPerOne : Nat) := by
  obtain ⟨hupper, hlower⟩ := FloatFormat.nearest_error_of_lt F.unitsPerOne_pos
    (nearest_lt_infinity_of_mul hx hs hfinite) hlt
  rw [exact_mul hx hs, exact_mul_exact, signed_mul_natCast]
  exact signed_error (x.negative != s.negative) hupper hlower

/-- **A product with a positive number keeps the order.** -/
theorem exact_mul_le (hx : x.isFinite = true) (hy : y.isFinite = true) (hs : s.isFinite = true)
    (hpositive : s.negative = false) (hfirst : (x.mul s).isFinite = true)
    (hsecond : (y.mul s).isFinite = true) (hle : x.exact ≤ y.exact) :
    (x.mul s).exact ≤ (y.mul s).exact := by
  have hfirst := nearest_lt_infinity_of_mul hx hs hfirst
  have hsecond := nearest_lt_infinity_of_mul hy hs hsecond
  have hzero (m : Nat) (hm : m = 0) : F.units (F.nearest (m * s.units) F.unitsPerOne) = 0 := by
    rw [hm, Nat.zero_mul]
    exact FloatFormat.units_nearest_zero F.unitsPerOne_pos
  rw [exact_mul hx hs, exact_mul hy hs, hpositive, Bool.bne_false, Bool.bne_false]
  exact signed_le_signed hle
    (fun h => FloatFormat.units_nearest_mono F.unitsPerOne_pos hfirst hsecond
      (Nat.mul_le_mul_right s.units h))
    (fun h => FloatFormat.units_nearest_mono F.unitsPerOne_pos hsecond hfirst
      (Nat.mul_le_mul_right s.units h)) (hzero _) (hzero _)

/-! ## Nearest integers -/

/-- The nearest integer to a finite number, a half going away from zero. -/
def rounded (x : Binary F) : Int :=
  signed x.negative ((2 * x.units + F.unitsPerOne) / (2 * F.unitsPerOne))

theorem toInt?_eq_rounded (hx : x.isFinite = true) : x.toInt? = some x.rounded := by
  unfold toInt? rounded signed
  rw [if_pos hx]
  norm_cast

theorem rounded_neg (x : Binary F) : x.neg.rounded = -x.rounded := signed_not _ _

/-- **The nearest integer is within a half** of a number. -/
theorem rounded_error (x : Binary F) :
    2 * (x.rounded * F.unitsPerOne) ≤ 2 * x.exact + F.unitsPerOne ∧
      2 * x.exact ≤ 2 * (x.rounded * F.unitsPerOne) + F.unitsPerOne := by
  have hpos := F.unitsPerOne_pos
  have hdiv := Nat.div_add_mod (2 * x.units + F.unitsPerOne) (2 * F.unitsPerOne)
  have hmod := Nat.mod_lt (2 * x.units + F.unitsPerOne) (Nat.mul_pos Nat.two_pos hpos)
  rw [rounded, signed_mul_natCast, exact_eq]
  generalize (2 * x.units + F.unitsPerOne) / (2 * F.unitsPerOne) = q at *
  rw [Nat.mul_assoc, Nat.mul_comm _ q] at hdiv
  exact signed_error x.negative (by omega) (by omega)

/-- **The nearest integer keeps the order.** -/
theorem rounded_le (hle : x.exact ≤ y.exact) : x.rounded ≤ y.rounded := by
  have hmono {m n : Nat} (h : m ≤ n) : (2 * m + F.unitsPerOne) / (2 * F.unitsPerOne) ≤
      (2 * n + F.unitsPerOne) / (2 * F.unitsPerOne) := Nat.div_le_div_right (by omega)
  have hzero (m : Nat) (hm : m = 0) : (2 * m + F.unitsPerOne) / (2 * F.unitsPerOne) = 0 := by
    have hpos := F.unitsPerOne_pos
    exact Nat.div_eq_of_lt (by omega)
  exact signed_le_signed hle hmono hmono (hzero _) (hzero _)

end Binary

end CommandLink
