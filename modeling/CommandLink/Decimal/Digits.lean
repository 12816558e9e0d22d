/-!
# Decimal digits

`Digits.ofNat` writes a number without leading zeros, `Digits.padded` in a fixed number of places,
and `Digits.toNat` reads either back.
-/

namespace CommandLink

/-- A decimal digit. -/
abbrev Digit := Fin 10

namespace Digit

-- Zero without the instances of `Fin`, which depend on what is imported.
instance : OfNat Digit 0 := ⟨⟨0, by decide⟩⟩

/-- The character of a digit. -/
def char (d : Digit) : Char := Char.ofNat (48 + d.val)

/-- The digit that a character stands for. -/
def ofChar? (c : Char) : Option Digit :=
  if h : 48 ≤ c.toNat ∧ c.toNat < 58 then some ⟨c.toNat - 48, by omega⟩ else none

end Digit

namespace Digits

/-- The digits of `n` without leading zeros, before `rest`. -/
def onto (n : Nat) (rest : List Digit) : List Digit :=
  if h : n < 10 then ⟨n, h⟩ :: rest
  else onto (n / 10) (⟨n % 10, Nat.mod_lt _ (by decide)⟩ :: rest)
termination_by n
decreasing_by exact Nat.div_lt_self (by omega) (by decide)

/-- The digits of `n`, the most significant first; zero has one digit. -/
def ofNat (n : Nat) : List Digit := onto n []

/-- The last `count` digits of `n`, before `rest`. -/
def paddedOnto : (count n : Nat) → (rest : List Digit) → List Digit
  | 0, _, rest => rest
  | count + 1, n, rest => paddedOnto count (n / 10) (⟨n % 10, Nat.mod_lt _ (by decide)⟩ :: rest)

/-- The last `count` digits of `n`, with leading zeros. -/
def padded (count n : Nat) : List Digit := paddedOnto count n []

/-- The number that digits stand for. -/
def toNat (digits : List Digit) : Nat :=
  digits.foldl (fun n d => n * 10 + d.val) 0

/-- The digits at the front of a text, and what follows them. -/
def scan (text : List Char) : List Digit × List Char :=
  ((text.takeWhile (Digit.ofChar? · |>.isSome)).filterMap Digit.ofChar?,
    text.dropWhile (Digit.ofChar? · |>.isSome))

end Digits

end CommandLink
