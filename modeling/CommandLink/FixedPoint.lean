import CommandLink.Decimal.Numeral

/-!
# Fixed-point numbers

A physical quantity travels as the integer nearest to the quantity times a scale, a half going away
from zero, so that a value and its negative are quantised alike. What does not fit in 32 bits is
refused, not clamped.
-/

namespace CommandLink.FixedPoint

/-- Why a value has no fixed-point form. -/
inductive Error where
  /-- The value or the scale is NaN or infinite. -/
  | nonFinite (value scale : Binary64)
  /-- The scaled value does not fit in a signed 32-bit integer. -/
  | overflow (value scale : Binary64)
deriving DecidableEq, Repr

/-- The wording of a refusal. -/
def Error.message : Error → String
  | .nonFinite value scale => s!"value {value.text} is not finite (scale {scale.text})"
  | .overflow value scale => s!"value {value.text} at scale {scale.text} overflows i32"

/-- The integers that 32 bits with a sign hold. -/
def inRange (n : Int) : Bool := decide (-2 ^ 31 ≤ n ∧ n < 2 ^ 31)

/-- The fixed-point form of `value`: the double-precision product with the scale, rounded to the
nearest integer. -/
def encode (value scale : Binary64) : Except Error Int32 :=
  if !value.isFinite || !scale.isFinite then .error (.nonFinite value scale)
  else
    match (value.mul scale).toInt? with
    | none => .error (.overflow value scale)
    | some n => if inRange n then .ok (Int32.ofInt n) else .error (.overflow value scale)

/-- The value that a fixed-point number stands for. -/
def decode (raw : Int32) (scale : Binary64) : Binary64 :=
  (Binary.ofInt raw.toInt).div scale

/-- The largest error of a value that went through `encode` and `decode`. -/
def resolution (scale : Binary64) : Binary64 :=
  (Decimal.round .binary64 false ⟨5, -1⟩).div scale

/-- Scales are finite and above zero. -/
def validScale (scale : Binary64) : Bool := scale.isPositive

end CommandLink.FixedPoint
