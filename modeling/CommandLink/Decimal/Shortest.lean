import CommandLink.Decimal.Basic

/-!
# The shortest decimal of a binary number

The shortest decimal of a finite number is one with the fewest digits among those that read back as
the number, and of those the nearest to it. On the grid of decimals with a given number of digits
only the two neighbours of the number can qualify, so they are all that is tried, grid after grid.
Two neighbours that are equally near are told apart by a `Tie` rule.

The search ends with the number's exact expansion, which reads back by itself; for the formats in
use a grid of at most seventeen digits answers before that.
-/

namespace CommandLink

/-- Which of two equally near neighbours is taken. -/
inductive Tie where
  /-- The larger one. -/
  | up
  /-- The one whose last digit is even. -/
  | even
deriving DecidableEq, Repr

namespace Decimal

variable (F : FloatFormat)

/-- The decimal exponent of the first digit of `units / unitsPerOne`. -/
def leadingExponent (units : Nat) : Int :=
  let guess : Int := (Digits.ofNat units).length - (Digits.ofNat F.unitsPerOne).length
  if F.unitsPerOne * 10 ^ guess.toNat ≤ units * 10 ^ (-guess).toNat then guess else guess - 1

/-- The number `units / unitsPerOne` in steps of `10 ^ exponent`, as a quotient. -/
def onGrid (units : Nat) (exponent : Int) : Nat × Nat :=
  (units * 10 ^ (-exponent).toNat, F.unitsPerOne * 10 ^ exponent.toNat)

/-- Whether a decimal reads back as the number at `magnitude`. -/
def readsBack (magnitude : Nat) (d : Decimal) : Bool := place F d == magnitude

/-- The neighbour of the number in steps of `10 ^ exponent` that reads back as it, the nearer one if
both do. -/
def neighbour? (tie : Tie) (magnitude : Nat) (exponent : Int) : Option Decimal :=
  let (num, den) := onGrid F (F.units magnitude) exponent
  let below : Decimal := ⟨num / den, exponent⟩
  let above : Decimal := ⟨num / den + 1, exponent⟩
  match readsBack F magnitude below, readsBack F magnitude above with
  | true, true =>
    if 2 * (num % den) < den then some below
    else if den < 2 * (num % den) then some above
    else match tie with
      | .up => some above
      | .even => if num / den % 2 = 0 then some below else some above
  | true, false => some below
  | false, true => some above
  | false, false => none

/-- The exact value at a place: `1 / 2 ^ k` is `5 ^ k / 10 ^ k`. -/
def exact (magnitude : Nat) : Decimal :=
  let shift := Nat.log2 F.unitsPerOne
  ⟨F.units magnitude * 5 ^ shift, -shift⟩

/-- The shortest decimal that reads back as the finite number at `magnitude`. -/
def shortest (tie : Tie) (magnitude : Nat) : Decimal :=
  if magnitude = 0 then ⟨0, 0⟩
  else
    let leading := leadingExponent F (F.units magnitude)
    (((List.range 17).findSome? fun (further : Nat) =>
      neighbour? F tie magnitude (leading - further)).getD (exact F magnitude)).trim

end Decimal

end CommandLink
