/-!
# Binary floating-point formats

A format has so many fraction bits and so many exponent bits. Its magnitudes, read as integers,
are in ascending order: first the subnormal ones, one smallest positive value apart, then binade
after binade, each with a spacing twice that of the one before, then infinity and the NaNs. So a
magnitude is a place in that order, its exact value is a whole number of smallest positive values
(`units`), and rounding is the search for the nearest place (`nearest`): a half goes to the even
place, and what lies beyond the last finite place becomes infinity.
-/

-- Powers of numbers are those of the core library, whatever else is imported.
attribute [instance (high), default_instance 20000] instPowNat

namespace CommandLink

/-- A binary interchange format. -/
structure FloatFormat where
  fractionBits : Nat
  exponentBits : Nat
deriving DecidableEq, Repr

namespace FloatFormat

/-- Single precision. -/
def binary32 : FloatFormat := ⟨23, 8⟩

/-- Double precision. -/
def binary64 : FloatFormat := ⟨52, 11⟩

variable (F : FloatFormat)

/-- The number of places, NaNs included. -/
def magnitudes : Nat := 2 ^ (F.exponentBits + F.fractionBits)

/-- The place of infinity: all exponent bits set and no fraction. -/
def infinity : Nat := (2 ^ F.exponentBits - 1) * 2 ^ F.fractionBits

/-- The number of smallest positive values that make up one. -/
def unitsPerOne : Nat := 2 ^ (2 ^ (F.exponentBits - 1) - 2 + F.fractionBits)

/-- The value at a place, in smallest positive values. -/
def units (place : Nat) : Nat :=
  if place < 2 ^ F.fractionBits then place
  else (2 ^ F.fractionBits + place % 2 ^ F.fractionBits) * 2 ^ (place / 2 ^ F.fractionBits - 1)

/-- A quotient rounded to the nearest natural number, a half going to the even neighbour. -/
def roundHalfEven (num den : Nat) : Nat :=
  let quotient := num / den
  let remainder := num % den
  if 2 * remainder < den ∨ 2 * remainder = den ∧ quotient % 2 = 0 then quotient else quotient + 1

/-- The place nearest to `num / den` smallest positive values. Within a binade the spacing is
`2 ^ shift`, and the places of a binade follow those of the one before without a gap, so a carry
out of the rounding lands on the right place by itself. -/
def nearest (num den : Nat) : Nat :=
  let shift := Nat.log2 (num / den) - F.fractionBits
  min (shift * 2 ^ F.fractionBits + roundHalfEven num (den * 2 ^ shift)) F.infinity

theorem nearest_le_infinity (num den : Nat) : F.nearest num den ≤ F.infinity :=
  Nat.min_le_right _ _

theorem infinity_lt_magnitudes : F.infinity < F.magnitudes := by
  have h : 2 ^ F.exponentBits - 1 < 2 ^ F.exponentBits := Nat.sub_lt (Nat.pow_pos (by decide)) (by decide)
  rw [infinity, magnitudes, Nat.pow_add]
  exact Nat.mul_lt_mul_of_pos_right h (Nat.pow_pos (by decide))

end FloatFormat

end CommandLink
