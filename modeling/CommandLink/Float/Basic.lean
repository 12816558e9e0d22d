import CommandLink.Float.Format

/-!
# Binary floating-point numbers

A number is a sign and a place in the order of magnitudes of its format. Every operation computes
the exact result and rounds it once; NaN, the infinities and the zeros follow IEEE 754. Which NaN
comes out is left open by that standard, and here it is always the one with every bit set.
-/

namespace CommandLink

/-- A number of the format `F`. -/
structure Binary (F : FloatFormat) where
  negative : Bool
  magnitude : Nat
  magnitude_lt : magnitude < F.magnitudes
deriving DecidableEq, Repr

/-- Single-precision numbers. -/
abbrev Binary32 := Binary .binary32

/-- Double-precision numbers. -/
abbrev Binary64 := Binary .binary64

namespace Binary

variable {F G : FloatFormat}

/-- The number with the given bit pattern: the sign bit above the magnitude. -/
def ofBits (F : FloatFormat) (bits : Nat) : Binary F where
  negative := bits / F.magnitudes % 2 == 1
  magnitude := bits % F.magnitudes
  magnitude_lt := Nat.mod_lt _ (Nat.pow_pos (by decide))

/-- The bit pattern of a number. -/
def toBits (x : Binary F) : Nat :=
  (if x.negative then F.magnitudes else 0) + x.magnitude

/-- Not a number. -/
def isNaN (x : Binary F) : Bool := F.infinity < x.magnitude

/-- Plus or minus infinity. -/
def isInfinite (x : Binary F) : Bool := x.magnitude == F.infinity

/-- Neither infinite nor NaN. -/
def isFinite (x : Binary F) : Bool := x.magnitude < F.infinity

/-- Plus or minus zero. -/
def isZero (x : Binary F) : Bool := x.magnitude == 0

/-- Finite and above zero. -/
def isPositive (x : Binary F) : Bool := x.isFinite && !x.negative && !x.isZero

/-- Equality of numbers: the zeros are equal and a NaN equals nothing. -/
def equals (x y : Binary F) : Bool :=
  !x.isNaN && x.magnitude == y.magnitude && (x.isZero || x.negative == y.negative)

/-- The NaN that invalid operations give. -/
def nan : Binary F where
  negative := false
  magnitude := F.magnitudes - 1
  magnitude_lt := Nat.sub_lt (Nat.pow_pos (by decide)) (by decide)

/-- Infinity with the given sign. -/
def infinite (negative : Bool) : Binary F :=
  ⟨negative, F.infinity, F.infinity_lt_magnitudes⟩

/-- Zero with the given sign. -/
def zero (negative : Bool) : Binary F :=
  ⟨negative, 0, Nat.pow_pos (by decide)⟩

/-- The number nearest to `num / den` smallest positive values. -/
def round (negative : Bool) (num den : Nat) : Binary F :=
  ⟨negative, F.nearest num den, Nat.lt_of_le_of_lt (F.nearest_le_infinity num den) F.infinity_lt_magnitudes⟩

/-- The exact magnitude of a finite number, in smallest positive values. -/
def units (x : Binary F) : Nat := F.units x.magnitude

/-- The product, rounded once. -/
def mul (x y : Binary F) : Binary F :=
  let negative := x.negative != y.negative
  if x.isNaN || y.isNaN then nan
  else if x.isInfinite || y.isInfinite then
    if x.isZero || y.isZero then nan else infinite negative
  else round negative (x.units * y.units) F.unitsPerOne

/-- The quotient, rounded once. -/
def div (x y : Binary F) : Binary F :=
  let negative := x.negative != y.negative
  if x.isNaN || y.isNaN then nan
  else if x.isInfinite then
    if y.isInfinite then nan else infinite negative
  else if y.isInfinite then zero negative
  else if y.isZero then
    if x.isZero then nan else infinite negative
  else round negative (x.units * F.unitsPerOne) y.units

/-- The number nearest to an integer. -/
def ofInt (n : Int) : Binary F :=
  round (n < 0) (n.natAbs * F.unitsPerOne) 1

/-- The same number in another format, rounded once. -/
def convert (x : Binary F) : Binary G :=
  if x.isNaN then nan
  else if x.isInfinite then infinite x.negative
  else round x.negative (x.units * G.unitsPerOne) F.unitsPerOne

/-- A single-precision number in double precision; nothing is lost. -/
def widen (x : Binary32) : Binary64 := x.convert

/-- A double-precision number in single precision, rounded once. -/
def narrow (x : Binary64) : Binary32 := x.convert

/-- The nearest integer to a finite number, a half going away from zero; nothing for infinities
and NaN. -/
def toInt? (x : Binary F) : Option Int :=
  if x.isFinite then
    let n : Int := (2 * x.units + F.unitsPerOne) / (2 * F.unitsPerOne)
    some (if x.negative then -n else n)
  else none

end Binary

end CommandLink
