import CommandLink.Proofs.FixedPoint.RoundTrip
import CommandLink.Proofs.Float.Value

/-!
# How a fixed-point form is rounded

A fixed-point form is rounded twice: the product of value and scale to a number, and that to an integer.
Below `2 ^ 32` the first rounding is off by at most `2 ^ -22`, half the spacing there, and the second one
by at most a half. A product of `2 ^ 32` or more is far outside of the range, rounded or not.

* `rounded_near`: the integer that is kept in range is within `1 / 2 + 2 ^ -22` of the exact product.
* `encode_eq_ok_iff`, `encode_eq_error`: an integer in range is the fixed-point form, and a value without
  one is refused as an overflow.
* `encode_rounds`: the fixed-point form is near the exact product, only products at the ends of the range
  and beyond them are refused, signs do not matter, and the order is kept.
-/

namespace CommandLink

namespace FixedPoint

open Binary FloatFormat

variable {v w scale : Binary64} {r r' : Int32} {cause : Error}

/-! ## The exact product -/

theorem value_mul_value (v scale : Binary64) :
    v.value * scale.value * (binary64.unitsPerOne * binary64.unitsPerOne : Nat) =
      (v.exact * scale.exact : Int) := by
  push_cast
  rw [← value_mul v, ← value_mul scale]
  exact mul_mul_mul_comm ..

/-- Numbers below `2 ^ 32` are at most `2 ^ -21` apart, and so are those behind `2 ^ 31`. -/
theorem exists_spacing : ∃ t, binary64.unitsPerOne = 2 ^ 21 * 2 ^ t ∧
    2 ^ (binary64.fractionBits + 1 + t) = 2 ^ 32 * binary64.unitsPerOne := by
  obtain ⟨t, ht⟩ : ∃ t, t = 1053 := ⟨_, rfl⟩
  refine ⟨t, ?_, ?_⟩ <;> unfold unitsPerOne <;> rw [← Nat.pow_add, ht] <;> congr 1

/-- **A product below `2 ^ 32` is rounded to a number within `2 ^ -22`.** -/
theorem product_near (hv : v.isFinite = true) (hs : scale.isFinite = true)
    (hlt : v.units * scale.units < 2 ^ 32 * (binary64.unitsPerOne * binary64.unitsPerOne)) :
    (v.mul scale).isFinite = true ∧
      2 ^ 22 * ((v.mul scale).exact * binary64.unitsPerOne) ≤
        2 ^ 22 * (v.exact * scale.exact) + (binary64.unitsPerOne * binary64.unitsPerOne : Nat) ∧
      2 ^ 22 * (v.exact * scale.exact) ≤ 2 ^ 22 * ((v.mul scale).exact * binary64.unitsPerOne) +
        (binary64.unitsPerOne * binary64.unitsPerOne : Nat) := by
  obtain ⟨t, hone, htop⟩ := exists_spacing
  have hfinite : (v.mul scale).isFinite = true := isFinite_mul 32 hv hs hlt (by decide)
  obtain ⟨hupper, hlower⟩ := exact_mul_error (t := t) hv hs hfinite
    (by rwa [htop, Nat.mul_assoc])
  have hspacing : binary64.unitsPerOne * binary64.unitsPerOne =
      2 ^ 21 * (2 ^ t * binary64.unitsPerOne) := by rw [← Nat.mul_assoc, ← hone]
  rw [hspacing]
  generalize 2 ^ t * binary64.unitsPerOne = spacing at *
  refine ⟨hfinite, ?_, ?_⟩ <;> push_cast <;> omega

/-- What is rounded to a 32-bit integer comes from a product below `2 ^ 32`. -/
theorem product_lt (hv : v.isFinite = true) (hs : scale.isFinite = true)
    (hfinite : (v.mul scale).isFinite = true)
    (hrounded : (v.mul scale).rounded.natAbs ≤ 2 ^ 31) :
    v.units * scale.units < 2 ^ 32 * (binary64.unitsPerOne * binary64.unitsPerOne) := by
  by_contra hlarge
  have hpos := unitsPerOne_pos binary64
  have hexact : binary64.Exact (2 ^ 32 * binary64.unitsPerOne) :=
    exact_mul_unitsPerOne (by decide) (by decide)
  have hbelow : 2 ^ 32 * binary64.unitsPerOne ≤ (v.mul scale).units := by
    rw [mul_of_isFinite hv hs, units_round]
    exact hexact.le_nearest hpos (nearest_lt_infinity_of_mul hv hs hfinite)
      (by rw [Nat.mul_assoc]; exact Nat.not_lt.mp hlarge)
  have hinteger : 2 ^ 32 ≤ (v.mul scale).rounded.natAbs := by
    rw [rounded, natAbs_signed, Nat.le_div_iff_mul_le (Nat.mul_pos Nat.two_pos hpos)]
    omega
  omega

/-- Two roundings, one after the other: `n` is nearest to `p / one`, which is near to `x / one ^ 2`. -/
theorem error_of_errors {n p x one : Int} (hone : 0 ≤ one)
    (hinteger : 2 * (n * one) ≤ 2 * p + one ∧ 2 * p ≤ 2 * (n * one) + one)
    (hproduct : 2 ^ 22 * (p * one) ≤ 2 ^ 22 * x + one * one ∧
      2 ^ 22 * x ≤ 2 ^ 22 * (p * one) + one * one) :
    2 ^ 22 * (n * (one * one)) ≤ 2 ^ 22 * x + (2 ^ 21 + 1) * (one * one) ∧
      2 ^ 22 * x ≤ 2 ^ 22 * (n * (one * one)) + (2 ^ 21 + 1) * (one * one) := by
  have hupper := Int.mul_le_mul_of_nonneg_right hinteger.1 hone
  have hlower := Int.mul_le_mul_of_nonneg_right hinteger.2 hone
  rw [Int.add_mul, Int.mul_assoc, Int.mul_assoc, Int.mul_assoc] at hupper hlower
  generalize n * (one * one) = whole at *
  generalize p * one = product at *
  generalize one * one = square at *
  omega

/-- An error in units of `1 / d`. -/
theorem sub_le_of_mul_le {a b : Rat} {d : Nat} (hd : 0 < d)
    (h : (2 ^ 22 : Nat) * (a * d) ≤ (2 ^ 22 : Nat) * (b * d) + (2 ^ 21 + 1 : Nat) * d) :
    a - b ≤ 1 / 2 + 1 / (2 ^ 22 : Nat) := by
  apply Rat.le_of_mul_le_mul_right _ (Rat.natCast_pos.mpr hd)
  push_cast at *
  linarith

/-- **The integer that a product below `2 ^ 32` is rounded to** is within a half and `2 ^ -22`. -/
theorem rounded_near (hv : v.isFinite = true) (hs : scale.isFinite = true)
    (hlt : v.units * scale.units < 2 ^ 32 * (binary64.unitsPerOne * binary64.unitsPerOne)) :
    ((v.mul scale).rounded : Rat) - v.value * scale.value ≤ 1 / 2 + 1 / (2 ^ 22 : Nat) ∧
      v.value * scale.value - (v.mul scale).rounded ≤ 1 / 2 + 1 / (2 ^ 22 : Nat) := by
  obtain ⟨-, hproduct⟩ := product_near hv hs hlt
  obtain ⟨hupper, hlower⟩ := error_of_errors (Int.natCast_nonneg _) (rounded_error (v.mul scale))
    (by exact_mod_cast hproduct)
  have hexact := value_mul_value v scale
  have hsquare := Nat.mul_pos (unitsPerOne_pos binary64) (unitsPerOne_pos binary64)
  generalize binary64.unitsPerOne = one at hupper hlower hexact hsquare
  constructor
  · refine sub_le_of_mul_le hsquare ?_
    rw [hexact]
    exact_mod_cast hupper
  · refine sub_le_of_mul_le hsquare ?_
    rw [hexact]
    exact_mod_cast hlower

/-- A product of `2 ^ 32` or more, with its sign. -/
theorem large_product
    (hlarge : ¬ v.units * scale.units < 2 ^ 32 * (binary64.unitsPerOne * binary64.unitsPerOne)) :
    ((2 ^ 32 : Nat) : Rat) ≤ v.value * scale.value ∨
      v.value * scale.value ≤ -((2 ^ 32 : Nat) : Rat) := by
  have hsquare := Nat.mul_pos (unitsPerOne_pos binary64) (unitsPerOne_pos binary64)
  have hmagnitude : (v.exact * scale.exact).natAbs = v.units * scale.units := by
    rw [exact_mul_exact, natAbs_signed]
  have hexact := value_mul_value v scale
  rw [← hmagnitude] at hlarge
  generalize v.exact * scale.exact = product at hlarge hexact
  generalize binary64.unitsPerOne * binary64.unitsPerOne = square at hlarge hsquare hexact
  have hsides : ((2 ^ 32 : Nat) : Int) * square ≤ product ∨
      product ≤ -((2 ^ 32 : Nat) : Int) * square := by
    push_cast
    omega
  refine hsides.imp (fun habove => ?_) fun hbelow => ?_ <;>
    refine Rat.le_of_mul_le_mul_right ?_ (Rat.natCast_pos.mpr hsquare) <;> rw [hexact]
  · exact_mod_cast habove
  · exact_mod_cast hbelow

/-! ## What is accepted and refused -/

theorem isFinite_of_encode (h : encode v scale = .ok r) :
    v.isFinite = true ∧ scale.isFinite = true := by
  unfold encode at h
  split at h
  · cases h
  · rename_i hfinite
    simpa only [Bool.or_eq_true, Bool.not_eq_true', not_or, Bool.not_eq_false] using hfinite

theorem encode_of_isFinite (hv : v.isFinite = true) (hs : scale.isFinite = true) :
    encode v scale =
      if (v.mul scale).isFinite = true ∧ inRange (v.mul scale).rounded = true then
        .ok (Int32.ofInt (v.mul scale).rounded)
      else .error (.overflow v scale) := by
  unfold encode
  rw [hv, hs]
  by_cases hfinite : (v.mul scale).isFinite = true
  · simp only [Bool.not_true, Bool.or_self, Bool.false_eq_true, ↓reduceIte, toInt?_eq_rounded hfinite,
      hfinite, true_and]
  · have hnone : (v.mul scale).toInt? = none := if_neg hfinite
    simp only [Bool.not_true, Bool.or_self, Bool.false_eq_true, ↓reduceIte, hnone, hfinite, false_and]

/-- **A rounded product in range is the fixed-point form.** -/
theorem encode_eq_ok_iff (hv : v.isFinite = true) (hs : scale.isFinite = true) :
    encode v scale = .ok r ↔
      (v.mul scale).isFinite = true ∧ (v.mul scale).rounded = r.toInt := by
  rw [encode_of_isFinite hv hs]
  constructor
  · intro h
    split at h
    · rename_i hproduct
      obtain ⟨hfinite, hrange⟩ := hproduct
      obtain ⟨hlow, hhigh⟩ := of_decide_eq_true hrange
      cases h
      exact ⟨hfinite, (Int32.toInt_ofInt_of_le hlow hhigh).symm⟩
    · cases h
  · rintro ⟨hfinite, hrounded⟩
    rw [hrounded, if_pos ⟨hfinite, inRange_toInt r⟩, Int32.ofInt_toInt]

/-- **A value without a fixed-point form overflows**: its product is not finite or not in range. -/
theorem encode_eq_error (hv : v.isFinite = true) (hs : scale.isFinite = true)
    (h : encode v scale = .error cause) : cause = .overflow v scale ∧
      ((v.mul scale).isFinite = true →
        2 ^ 31 ≤ (v.mul scale).rounded ∨ (v.mul scale).rounded ≤ -2 ^ 31 - 1) := by
  rw [encode_of_isFinite hv hs] at h
  split at h
  · cases h
  · rename_i hproduct
    cases h
    refine ⟨rfl, fun hfinite => ?_⟩
    unfold inRange at hproduct
    simp only [hfinite, decide_eq_true_eq, true_and] at hproduct
    omega

/-- **A fixed-point form is near the exact product.** -/
theorem encode_near (hv : v.isFinite = true) (hs : scale.isFinite = true)
    (h : encode v scale = .ok r) :
    ((r.toInt : Rat) - v.value * scale.value).abs ≤ 1 / 2 + 1 / (2 ^ 22 : Nat) := by
  obtain ⟨hfinite, hrounded⟩ := (encode_eq_ok_iff hv hs).mp h
  have hlt := product_lt hv hs hfinite (by rw [hrounded]; exact natAbs_toInt_le r)
  obtain ⟨hupper, hlower⟩ := rounded_near hv hs hlt
  rw [hrounded] at hupper hlower
  unfold Rat.abs
  split
  · exact hupper
  · rw [Rat.neg_sub]
    exact hlower

/-- **Only products at the ends of the range and beyond them are refused.** -/
theorem encode_refused (hv : v.isFinite = true) (hs : scale.isFinite = true)
    (h : encode v scale = .error cause) : cause = .overflow v scale ∧
      ((2 ^ 31 : Nat) - 1 / 2 - 1 / (2 ^ 22 : Nat) ≤ v.value * scale.value ∨
        v.value * scale.value ≤ -(2 ^ 31 : Nat) - 1 / 2 + 1 / (2 ^ 22 : Nat)) := by
  obtain ⟨hcause, houtside⟩ := encode_eq_error hv hs h
  refine ⟨hcause, ?_⟩
  -- A product that is far outside of the range need not be finite, so there is no integer to go by.
  by_cases hlt : v.units * scale.units < 2 ^ 32 * (binary64.unitsPerOne * binary64.unitsPerOne)
  · obtain ⟨hupper, hlower⟩ := rounded_near hv hs hlt
    refine (houtside (product_near hv hs hlt).1).imp (fun habove => ?_) fun hbelow => ?_
    · have habove : ((2 ^ 31 : Nat) : Rat) ≤ (v.mul scale).rounded := by exact_mod_cast habove
      push_cast at habove hlower ⊢
      linarith
    · have hbelow : ((v.mul scale).rounded : Rat) ≤ -(2 ^ 31 : Nat) - 1 := by exact_mod_cast hbelow
      push_cast at hbelow hupper ⊢
      linarith
  · refine (large_product hlt).imp (fun habove => ?_) fun hbelow => ?_
    · push_cast at habove ⊢
      linarith
    · push_cast at hbelow ⊢
      linarith

/-! ## Signs and order -/

/-- **A value and its negative have fixed-point forms of opposite signs**, but for the least integer,
which has no opposite. -/
theorem encode_neg (hv : v.isFinite = true) (hs : scale.isFinite = true)
    (h : encode v scale = .ok r) (hopposite : r.toInt ≠ -2 ^ 31) :
    encode v.neg scale = .ok (-r) := by
  obtain ⟨hfinite, hrounded⟩ := (encode_eq_ok_iff hv hs).mp h
  have hneg : (-r).toInt = -r.toInt := by
    have hlow := r.le_toInt
    have hhigh := r.toInt_lt
    rw [Int32.toInt_neg]
    exact Int.bmod_eq_of_le (by omega) (by omega)
  rw [encode_eq_ok_iff ((isFinite_neg v).trans hv) hs, neg_mul hv hs, isFinite_neg, rounded_neg, hrounded,
    hneg]
  exact ⟨hfinite, rfl⟩

/-- **Fixed-point forms keep the order of their values.** -/
theorem encode_mono (hv : v.isFinite = true) (hw : w.isFinite = true) (hs : validScale scale = true)
    (hle : v.value ≤ w.value) (h : encode v scale = .ok r) (h' : encode w scale = .ok r') :
    r ≤ r' := by
  have hsfinite := isFinite_of_validScale hs
  obtain ⟨hfinite, hrounded⟩ := (encode_eq_ok_iff hv hsfinite).mp h
  obtain ⟨hfinite', hrounded'⟩ := (encode_eq_ok_iff hw hsfinite).mp h'
  rw [Int32.le_iff_toInt_le, ← hrounded, ← hrounded']
  exact rounded_le (exact_mul_le hv hw hsfinite (negative_of_validScale hs) hfinite hfinite'
    (value_le_value.mp hle))

/-- **Fixed-point forms are rounded correctly, and only what does not fit is refused.** For every finite
value and every valid scale, read as exact rationals:

* the fixed-point form is within `1 / 2 + 2 ^ -22` of the product;
* a refusal is an overflow, and the product is at most `1 / 2 + 2 ^ -22` below `2 ^ 31`, or at least
  `1 / 2 - 2 ^ -22` below `-2 ^ 31`;
* the negative of the value has the negative fixed-point form, if that is not `-2 ^ 31`;
* a value that is not smaller does not have a smaller fixed-point form. -/
theorem encode_rounds (hv : v.isFinite = true) (hs : validScale scale = true) :
    (∀ r, encode v scale = .ok r →
      ((r.toInt : Rat) - v.value * scale.value).abs ≤ 1 / 2 + 1 / (2 ^ 22 : Nat)) ∧
    (∀ cause, encode v scale = .error cause → cause = .overflow v scale ∧
      ((2 ^ 31 : Nat) - 1 / 2 - 1 / (2 ^ 22 : Nat) ≤ v.value * scale.value ∨
        v.value * scale.value ≤ -(2 ^ 31 : Nat) - 1 / 2 + 1 / (2 ^ 22 : Nat))) ∧
    (∀ r, encode v scale = .ok r → r.toInt ≠ -2 ^ 31 → encode v.neg scale = .ok (-r)) ∧
    ∀ w r r', w.isFinite = true → v.value ≤ w.value → encode v scale = .ok r →
      encode w scale = .ok r' → r ≤ r' :=
  have hsfinite := isFinite_of_validScale hs
  ⟨fun _ => encode_near hv hsfinite, fun _ => encode_refused hv hsfinite,
    fun _ => encode_neg hv hsfinite, fun _ _ _ hw => encode_mono hv hw hs⟩

/-- Five, and minus five, at the scale one half. -/
theorem encode_rounds_five :
    encode (ofInt 5) ((ofInt 1).div (ofInt 2)) = .ok 3 ∧
      encode (ofInt 5 : Binary64).neg ((ofInt 1).div (ofInt 2)) = .ok (-3) ∧
      (((3 : Int32).toInt : Rat) - (ofInt 5 : Binary64).value *
        ((ofInt 1).div (ofInt 2) : Binary64).value).abs ≤ 1 / 2 + 1 / (2 ^ 22 : Nat) := by
  have hfive : encode (ofInt 5) ((ofInt 1).div (ofInt 2)) = .ok 3 := by decide +kernel
  have hfinite : (ofInt 5 : Binary64).isFinite = true := by decide +kernel
  have hvalid : validScale ((ofInt 1).div (ofInt 2)) = true := by decide +kernel
  obtain ⟨hnear, -, hneg, -⟩ := encode_rounds hfinite hvalid
  exact ⟨hfive, hneg 3 hfive (by decide), hnear 3 hfive⟩

end FixedPoint

end CommandLink
