import CommandLink.Decimal.Digits
import CommandLink.Float.Basic

/-!
# Decimal numbers and their nearest binary ones

A decimal is a natural number times a power of ten. `Decimal.round` is the binary number nearest to
it, rounded once from the exact value. Powers of ten that no finite number of the format can answer
for are cut off first, so an exponent of any size costs no more than its digits.
-/

namespace CommandLink

/-- The number `digits * 10 ^ exponent`. -/
structure Decimal where
  digits : Nat
  exponent : Int
deriving DecidableEq, Repr

namespace Decimal

/-- The decimal exponent just above the first digit: a number other than zero lies between
`10 ^ (order - 1)` and `10 ^ order`. -/
def order (d : Decimal) : Int := (Digits.ofNat d.digits).length + d.exponent

/-- The place of the format `F` nearest to `d`, from the exact value. -/
def exactPlace (F : FloatFormat) (d : Decimal) : Nat :=
  F.nearest (d.digits * 10 ^ d.exponent.toNat * F.unitsPerOne) (10 ^ (-d.exponent).toNat)

/-- The place of the format `F` nearest to `d`. Above `10 ^ 2 ^ (exponentBits - 1)` all is infinite,
and below the inverse of twice `unitsPerOne` all is zero. -/
def place (F : FloatFormat) (d : Decimal) : Nat :=
  if d.digits = 0 then 0
  else if (2 ^ (F.exponentBits - 1) : Nat) < d.order then F.infinity
  else if d.order + (2 ^ (F.exponentBits - 1) + F.fractionBits : Nat) ≤ 0 then 0
  else exactPlace F d

theorem place_le_infinity (F : FloatFormat) (d : Decimal) : place F d ≤ F.infinity := by
  rw [place, exactPlace]
  split
  · exact Nat.zero_le _
  · split
    · exact Nat.le_refl _
    · split
      · exact Nat.zero_le _
      · exact F.nearest_le_infinity _ _

/-- The number of the format `F` nearest to `d`, with the given sign. -/
def round (F : FloatFormat) (negative : Bool) (d : Decimal) : Binary F :=
  ⟨negative, place F d, Nat.lt_of_le_of_lt (place_le_infinity F d) F.infinity_lt_magnitudes⟩

/-- The same number without trailing zeros among its digits. -/
def trim (d : Decimal) : Decimal :=
  if h : d.digits ≠ 0 ∧ d.digits % 10 = 0 then trim ⟨d.digits / 10, d.exponent + 1⟩ else d
termination_by d.digits
decreasing_by exact Nat.div_lt_self (by omega) (by decide)

end Decimal

end CommandLink
