import CommandLink.Decimal.Shortest

/-!
# Written numbers

A numeral is what a written number consists of: a sign, the digits before the point, those after
it, and an exponent. `Numeral.chars` writes it; `Numeral.round` reads its value as a binary number.
A `NumeralStyle` says how a binary number is laid out as a numeral; `NumeralStyle.plain` is that of
messages and tables, `NumeralStyle.json` that of JSON text, where the precision of a number decides
from which size on it has an exponent.
-/

namespace CommandLink

/-- A written number. No fraction digits means no point. -/
structure Numeral where
  negative : Bool
  whole : Nat
  fraction : List Digit
  exponent : Option Int
deriving DecidableEq, Repr

namespace Numeral

/-- The numeral of an integer. -/
def ofInt (n : Int) : Numeral := ⟨n < 0, n.natAbs, [], none⟩

/-- The integer that a numeral without point and exponent stands for. Minus zero is no integer. -/
def toInt? (n : Numeral) : Option Int :=
  if n.fraction.isEmpty && n.exponent.isNone && !(n.negative && n.whole == 0) then
    some (if n.negative then -n.whole else n.whole)
  else none

/-- The magnitude of a numeral. -/
def toDecimal (n : Numeral) : Decimal where
  digits := n.fraction.foldl (fun digits d => digits * 10 + d.val) n.whole
  exponent := n.exponent.getD 0 - n.fraction.length

/-- The binary number nearest to a numeral. -/
def round (F : FloatFormat) (n : Numeral) : Binary F := n.toDecimal.round F n.negative

/-- The characters of the digits of a number. -/
def natChars (n : Nat) : List Char := (Digits.ofNat n).map Digit.char

/-- An exponent with its sign. -/
def exponentChars (e : Int) : List Char :=
  'e' :: (if e < 0 then '-' else '+') :: natChars e.natAbs

/-- A numeral as it is written. -/
def chars (n : Numeral) : List Char :=
  (if n.negative then ['-'] else []) ++ natChars n.whole
    ++ (if n.fraction.isEmpty then [] else '.' :: n.fraction.map Digit.char)
    ++ (match n.exponent with
      | none => []
      | some e => exponentChars e)

/-- A numeral as text. -/
def text (n : Numeral) : String := String.ofList n.chars

end Numeral

/-- How finite binary numbers are laid out as numerals. -/
structure NumeralStyle where
  /-- Which of two equally short and near decimals is written. -/
  tie : Tie
  /-- The decimal exponents of the first digit that are written without an exponent. -/
  positional : Int → Bool
  /-- Whether a number without a fraction is written with a point and a zero. -/
  keepsPoint : Bool

namespace NumeralStyle

/-- Messages and tables: never an exponent, no point on whole numbers, a tie goes up. -/
def plain : NumeralStyle := ⟨.up, fun _ => true, false⟩

/-- The decimal exponents that JSON text writes out: single precision has no exponent from `1e-6` up
to `1e13`, double precision none from `1e-5` up to `1e16`. -/
def jsonPositional (F : FloatFormat) (e : Int) : Bool :=
  if F = .binary32 then decide (-6 ≤ e ∧ e < 13) else decide (-5 ≤ e ∧ e < 16)

/-- JSON text: an exponent on small and large numbers, otherwise always a point. -/
def json (F : FloatFormat) : NumeralStyle := ⟨.even, jsonPositional F, true⟩

/-- The numeral of a decimal. -/
def layout (style : NumeralStyle) (negative : Bool) (d : Decimal) : Numeral :=
  if style.positional (d.order - 1) then
    if 0 ≤ d.exponent then
      ⟨negative, d.digits * 10 ^ d.exponent.toNat, if style.keepsPoint then [0] else [], none⟩
    else
      let places := (-d.exponent).toNat
      ⟨negative, d.digits / 10 ^ places, Digits.padded places d.digits, none⟩
  else
    let places := (Digits.ofNat d.digits).length - 1
    ⟨negative, d.digits / 10 ^ places, Digits.padded places d.digits, some (d.order - 1)⟩

/-- The numeral of a finite number: its shortest decimal, laid out. -/
def numeral {F : FloatFormat} (style : NumeralStyle) (x : Binary F) : Numeral :=
  style.layout x.negative (Decimal.shortest F style.tie x.magnitude)

end NumeralStyle

namespace Binary

variable {F : FloatFormat}

/-- A number as it appears in messages and tables. -/
def text (x : Binary F) : String :=
  if x.isNaN then "NaN"
  else if x.isInfinite then (if x.negative then "-inf" else "inf")
  else (NumeralStyle.plain.numeral x).text

end Binary

end CommandLink
