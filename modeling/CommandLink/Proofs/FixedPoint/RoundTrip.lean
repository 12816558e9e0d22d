import CommandLink.FixedPoint
import CommandLink.Proofs.Float.Conversion

/-!
# Fixed-point numbers come back from their values

`encode_decode`: a 32-bit integer whose value at a valid scale is finite is the fixed-point form of
that value. Division and product are each rounded once, so the product is off by at most a few units
in the 53rd bit, far less than the half that rounding to an integer needs. That holds for every
scale: the quotient of a nonzero integer is never so small that it loses more than three bits.
-/

namespace CommandLink

namespace FixedPoint

open Binary

/-- The quotient `q` of `a * u * u` by `s`, times `s`, is not much more than `a * u * u`. -/
theorem quotient_lt {a u s q : Nat} (ha : a ≤ 2 ^ 31) (hu : 0 < u)
    (hsu : s * 2 ^ 52 ≤ 8 * (u * u)) (hq : FloatFormat.binary64.Near (a * u * u) s q) :
    q * s < 2 ^ 34 * (u * u) := by
  have h : 2 ^ 53 * (q * s) ≤ 2 ^ 53 * (a * u * u) + max (a * u * u) (s * 2 ^ 52) := hq.upper
  have hau : a * u * u ≤ 2 ^ 31 * (u * u) := by
    rw [Nat.mul_assoc]
    exact Nat.mul_le_mul_right _ ha
  have huu : 0 < u * u := Nat.mul_pos hu hu
  omega

/-- The quotient `q` of `a * u * u` by `s` and the product `p` of `q` and `s`, each rounded once:
`p / u` is within less than a half of `a`. -/
theorem product_error {a u s q p : Nat} (ha : a ≤ 2 ^ 31) (hu : 2 ^ 53 ≤ u) (hs : 0 < s)
    (hsu : s * 2 ^ 52 ≤ 8 * (u * u)) (hq : FloatFormat.binary64.Near (a * u * u) s q)
    (hp : FloatFormat.binary64.Near (q * s) u p) :
    2 * a * u ≤ 2 * p + u ∧ 2 * p < (2 * a + 1) * u := by
  have h1 : 2 ^ 53 * (q * s) ≤ 2 ^ 53 * (a * u * u) + max (a * u * u) (s * 2 ^ 52) := hq.upper
  have h2 : 2 ^ 53 * (a * u * u) ≤ 2 ^ 53 * (q * s) + max (a * u * u) (s * 2 ^ 52) := hq.lower
  have h3 : 2 ^ 53 * (p * u) ≤ 2 ^ 53 * (q * s) + max (q * s) (u * 2 ^ 52) := hp.upper
  have h4 : 2 ^ 53 * (q * s) ≤ 2 ^ 53 * (p * u) + max (q * s) (u * 2 ^ 52) := hp.lower
  have hupos : 0 < u := Nat.lt_of_lt_of_le (Nat.two_pow_pos 53) hu
  rcases Nat.eq_zero_or_pos a with rfl | hpos
  · -- Zero stays zero through both roundings.
    simp only [Nat.zero_mul] at h1
    have hq0 : q = 0 := by
      rcases Nat.eq_zero_or_pos q with h | h
      · exact h
      · have := Nat.mul_le_mul_right s h
        omega
    subst hq0
    simp only [Nat.zero_mul] at h3
    have hp0 : p = 0 := by
      rcases Nat.eq_zero_or_pos p with h | h
      · exact h
      · have := Nat.mul_le_mul_right u h
        omega
    subst hp0
    omega
  · have hx : u * u ≤ a * u * u := by
      rw [Nat.mul_assoc]
      exact Nat.le_mul_of_pos_left _ hpos
    have hux : u * 2 ^ 53 ≤ u * u := Nat.mul_le_mul_left _ hu
    have hlo : 2 ^ 53 * (a * u) ≤ 2 ^ 53 * p + 10 * (a * u) := by
      apply Nat.le_of_mul_le_mul_right _ hupos
      rw [Nat.add_mul, Nat.mul_assoc, Nat.mul_assoc _ p, Nat.mul_assoc 10]
      omega
    have hhi : 2 ^ 53 * p ≤ 2 ^ 53 * (a * u) + 10 * (a * u) := by
      apply Nat.le_of_mul_le_mul_right _ hupos
      rw [Nat.add_mul, Nat.mul_assoc, Nat.mul_assoc _ (a * u), Nat.mul_assoc 10]
      omega
    have hau : a * u ≤ 2 ^ 31 * u := Nat.mul_le_mul_right _ ha
    rw [Nat.mul_assoc, Nat.add_mul, Nat.mul_assoc]
    constructor <;> omega

variable {raw : Int32} {scale : Binary64}

theorem isFinite_of_validScale (h : validScale scale = true) : scale.isFinite = true := by
  unfold validScale isPositive at h
  simp only [Bool.and_eq_true] at h
  exact h.1.1

theorem negative_of_validScale (h : validScale scale = true) : scale.negative = false := by
  unfold validScale isPositive at h
  simp only [Bool.and_eq_true, Bool.not_eq_true'] at h
  exact h.1.2

theorem isZero_of_validScale (h : validScale scale = true) : scale.isZero = false := by
  unfold validScale isPositive at h
  simp only [Bool.and_eq_true, Bool.not_eq_true'] at h
  exact h.2

theorem units_pos_of_validScale (h : validScale scale = true) : 0 < scale.units := by
  apply Nat.pos_of_ne_zero
  intro h0
  have hz := isZero_of_validScale h
  unfold isZero at hz
  rw [units_eq_zero h0] at hz
  cases hz

theorem natAbs_toInt_le (raw : Int32) : raw.toInt.natAbs ≤ 2 ^ 31 := by
  have := raw.toInt_lt
  have := raw.le_toInt
  omega

theorem isFinite_ofInt_toInt (raw : Int32) : (ofInt raw.toInt : Binary64).isFinite = true :=
  (units_ofInt (Nat.lt_of_le_of_lt (natAbs_toInt_le raw) (by decide))).1

theorem units_ofInt_toInt (raw : Int32) : (ofInt raw.toInt : Binary64).units =
    raw.toInt.natAbs * FloatFormat.binary64.unitsPerOne :=
  (units_ofInt (Nat.lt_of_le_of_lt (natAbs_toInt_le raw) (by decide))).2

theorem negative_decode (hs : validScale scale = true) :
    (decode raw scale).negative = decide (raw.toInt < 0) := by
  unfold decode
  rw [negative_div (isFinite_ofInt_toInt raw) (isFinite_of_validScale hs) (isZero_of_validScale hs),
    negative_of_validScale hs, Bool.bne_false]
  rfl

/-- A fixed-point number is read back with the error of one division. -/
theorem near_decode (hs : validScale scale = true) (hfin : (decode raw scale).isFinite = true) :
    FloatFormat.binary64.Near (raw.toInt.natAbs * FloatFormat.binary64.unitsPerOne *
      FloatFormat.binary64.unitsPerOne) scale.units (decode raw scale).units := by
  rw [← units_ofInt_toInt]
  exact near_div (isFinite_ofInt_toInt raw) (isFinite_of_validScale hs) (isZero_of_validScale hs)
    (units_pos_of_validScale hs) hfin

theorem inRange_toInt (raw : Int32) : inRange raw.toInt = true := by
  unfold inRange
  exact decide_eq_true ⟨raw.le_toInt, raw.toInt_lt⟩

/-- **A fixed-point number is the fixed-point form of its value**, if that value is finite. -/
theorem encode_decode (hs : validScale scale = true)
    (hfin : (decode raw scale).isFinite = true) : encode (decode raw scale) scale = .ok raw := by
  have hsfin := isFinite_of_validScale hs
  have hspos := units_pos_of_validScale hs
  have ha := natAbs_toInt_le raw
  have hu : 2 ^ 53 ≤ FloatFormat.binary64.unitsPerOne :=
    FloatFormat.two_pow_le_unitsPerOne (by decide)
  have hsle := FloatFormat.units_mul_le (isFinite_iff.mp hsfin) (by decide)
  have hq := near_decode hs hfin
  have hlt := quotient_lt ha (FloatFormat.unitsPerOne_pos FloatFormat.binary64) hsle hq
  have hpfin := isFinite_mul 34 hfin hsfin hlt (by decide)
  obtain ⟨hlo, hhi⟩ := product_error ha hu hspos hsle hq (near_mul hfin hsfin hpfin)
  have hint := toInt?_eq hpfin hlo hhi
  have hsign : (if ((decode raw scale).mul scale).negative = true
      then -(raw.toInt.natAbs : Int) else raw.toInt.natAbs) = raw.toInt := by
    rw [negative_mul hfin hsfin, negative_decode hs, negative_of_validScale hs, Bool.bne_false]
    by_cases hn : raw.toInt < 0
    · rw [decide_eq_true hn, if_pos rfl]
      omega
    · rw [decide_eq_false hn, if_neg Bool.false_ne_true]
      omega
  unfold encode
  rw [hfin, hsfin, hint, hsign]
  simp only [Bool.not_true, Bool.or_self, Bool.false_eq_true, ↓reduceIte, inRange_toInt,
    Int32.ofInt_toInt]

end FixedPoint

end CommandLink
