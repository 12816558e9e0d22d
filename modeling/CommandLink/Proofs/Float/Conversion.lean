import CommandLink.Proofs.Float.Arithmetic

/-!
# Conversions that lose nothing

* `ofBits_toBits`/`toBits_ofBits`: numbers and bit patterns of the right width are the same thing.
* `units_ofInt`: an integer with at most `fractionBits + 1` bits is a number of the format.
* `narrow_widen`: a finite single-precision number comes back from double precision unchanged, with
  its sign, also when it is subnormal or a zero.
-/

namespace CommandLink

namespace FloatFormat

/-- A smallest positive single-precision value is a power of two of double-precision ones. -/
theorem exists_unitsPerOne_binary64 :
    ∃ gap, binary64.unitsPerOne = 2 ^ gap * binary32.unitsPerOne ∧ gap + 258 < 2 ^ 11 := by
  obtain ⟨gap, hgap⟩ : ∃ gap, gap = 925 := ⟨_, rfl⟩
  refine ⟨gap, ?_, by omega⟩
  unfold unitsPerOne
  rw [← Nat.pow_add, hgap]
  congr 1

end FloatFormat

namespace Binary

variable {F : FloatFormat}

/-! ## Bit patterns -/

theorem toBits_lt (x : Binary F) : x.toBits < 2 * F.magnitudes := by
  have := x.magnitude_lt
  unfold toBits
  split <;> omega

/-- A number is read back from its bit pattern. -/
theorem ofBits_toBits (x : Binary F) : ofBits F x.toBits = x := by
  obtain ⟨negative, magnitude, hlt⟩ := x
  unfold ofBits toBits
  cases negative
  · simp [Nat.div_eq_of_lt hlt, Nat.mod_eq_of_lt hlt]
  · simp [Nat.add_div_left _ (Nat.zero_lt_of_lt hlt), Nat.div_eq_of_lt hlt, Nat.mod_eq_of_lt hlt]

/-- A bit pattern is that of the number read from it. -/
theorem toBits_ofBits {bits : Nat} (h : bits < 2 * F.magnitudes) :
    (ofBits F bits).toBits = bits := by
  have hpos : 0 < F.magnitudes := Nat.two_pow_pos _
  have hdm := Nat.div_add_mod bits F.magnitudes
  have hdiv : bits / F.magnitudes < 2 := (Nat.div_lt_iff_lt_mul hpos).mpr h
  unfold ofBits toBits
  rcases Nat.lt_or_ge (bits / F.magnitudes) 1 with h0 | h1
  · have e : bits / F.magnitudes = 0 := Nat.lt_one_iff.mp h0
    rw [e] at hdm
    simp only [e, Nat.zero_mod]
    simpa using hdm
  · have e : bits / F.magnitudes = 1 := Nat.le_antisymm (Nat.lt_succ_iff.mp hdiv) h1
    rw [e, Nat.mul_one] at hdm
    simp only [e]
    simpa using hdm

/-! ## Exact results -/

/-- An exact value is rounded to a finite number of that value. -/
theorem round_exact {n k : Nat} (negative : Bool) (h : F.Exact n) (hk : 0 < k) :
    (round negative (n * k) k : Binary F).isFinite = true ∧
      (round negative (n * k) k : Binary F).units = n := by
  obtain ⟨hfin, hval⟩ := h.nearest hk
  exact ⟨isFinite_iff.mpr hfin, hval⟩

theorem exact_units {x : Binary F} (h : x.isFinite = true) : F.Exact x.units :=
  FloatFormat.exact_units (isFinite_iff.mp h)

/-- An integer of at most 53 bits is a double-precision number. -/
theorem units_ofInt {n : Int} (h : n.natAbs < 2 ^ 53) :
    (ofInt n : Binary64).isFinite = true ∧
      (ofInt n : Binary64).units = n.natAbs * FloatFormat.binary64.unitsPerOne := by
  have hex : FloatFormat.binary64.Exact (n.natAbs * FloatFormat.binary64.unitsPerOne) :=
    FloatFormat.exact_mul_unitsPerOne h (by decide)
  have := round_exact (decide (n < 0)) hex Nat.one_pos
  rwa [Nat.mul_one] at this

/-- A finite number is converted by one rounding. -/
theorem convert_of_isFinite {G : FloatFormat} {x : Binary F} (h : x.isFinite = true) :
    (x.convert : Binary G) = round x.negative (x.units * G.unitsPerOne) F.unitsPerOne := by
  unfold convert
  rw [isNaN_of_isFinite h, isInfinite_of_isFinite h, if_neg Bool.false_ne_true,
    if_neg Bool.false_ne_true]

theorem narrow_of_isFinite {x : Binary64} (h : x.isFinite = true) : x.narrow =
    round x.negative (x.units * FloatFormat.binary32.unitsPerOne)
      FloatFormat.binary64.unitsPerOne := convert_of_isFinite h

/-- Double precision has every single-precision value. -/
theorem units_widen {x : Binary32} (h : x.isFinite = true) : x.widen.isFinite = true ∧
    x.widen.units * FloatFormat.binary32.unitsPerOne =
      x.units * FloatFormat.binary64.unitsPerOne := by
  obtain ⟨gap, hgap, hle⟩ := FloatFormat.exists_unitsPerOne_binary64
  obtain ⟨a, e, ha, he, hu⟩ := FloatFormat.exists_units (isFinite_iff.mp h)
  have hu : x.units = a * 2 ^ e := hu
  have he : e + 1 < 256 := he
  have hex : FloatFormat.binary64.Exact (x.units * 2 ^ gap) := by
    rw [hu, Nat.mul_assoc, ← Nat.pow_add]
    refine FloatFormat.exact_mul_two_pow (Nat.lt_of_lt_of_le ha (by decide)) ?_
    exact Nat.lt_trans (by omega) hle
  obtain ⟨hfin, hval⟩ := round_exact x.negative hex FloatFormat.binary32.unitsPerOne_pos
  unfold widen
  rw [convert_of_isFinite h, hgap, ← Nat.mul_assoc]
  refine ⟨hfin, ?_⟩
  rw [hval]

theorem negative_widen {x : Binary32} (h : x.isFinite = true) : x.widen.negative = x.negative := by
  unfold widen
  rw [convert_of_isFinite h, negative_round]

/-- Infinity and NaN are not finite in double precision either. -/
theorem isFinite_of_widen {x : Binary32} (h : x.widen.isFinite = true) : x.isFinite = true := by
  unfold widen convert at h
  by_cases hnan : x.isNaN = true
  · rw [if_pos hnan] at h
    cases h
  rw [if_neg hnan] at h
  by_cases hinfinite : x.isInfinite = true
  · rw [if_pos hinfinite] at h
    cases h
  unfold isNaN at hnan
  unfold isInfinite at hinfinite
  simp only [decide_eq_true_eq, beq_iff_eq] at hnan hinfinite
  exact isFinite_iff.mpr (by omega)

/-- **A finite single-precision number comes back from double precision.** -/
theorem narrow_widen {x : Binary32} (h : x.isFinite = true) : x.widen.narrow = x := by
  obtain ⟨hfin, hunits⟩ := units_widen h
  have hplace : FloatFormat.binary32.nearest (x.widen.units * FloatFormat.binary32.unitsPerOne)
      FloatFormat.binary64.unitsPerOne = x.magnitude := by
    rw [hunits]
    exact FloatFormat.nearest_units (isFinite_iff.mp h) FloatFormat.binary64.unitsPerOne_pos
  rw [narrow_of_isFinite hfin, negative_widen h]
  unfold round
  simp only [hplace]

end Binary

end CommandLink
