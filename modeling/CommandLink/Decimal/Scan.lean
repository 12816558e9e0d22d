import CommandLink.Decimal.Numeral

/-!
# Reading written numbers

The parts that written numbers have in common, each read from the front of a text: digits, a sign,
an exponent. What is read is never longer than the text, so readers that are built of these come to
an end.

`Binary.ofLiteral?` reads a number as it is typed: digits on either side of a point, an exponent, or
the name of an infinity or of NaN.
-/

namespace CommandLink

theorem Digits.length_scan (text : List Char) :
    (Digits.scan text).2.length + (Digits.scan text).1.length ≤ text.length := by
  have h := congrArg List.length (List.takeWhile_append_dropWhile
    (p := (Digit.ofChar? · |>.isSome)) (l := text))
  have := List.length_filterMap_le Digit.ofChar?
    (text.takeWhile (Digit.ofChar? · |>.isSome))
  simp only [List.length_append] at h
  simp only [Digits.scan]
  omega

namespace Numeral

/-- A sign at the front of a text: whether it is a minus, and what follows. -/
def scanMinus : List Char → Bool × List Char
  | '-' :: text => (true, text)
  | text => (false, text)

/-- A sign of either kind at the front of a text: whether it is a minus, and what follows. -/
def scanSign : List Char → Bool × List Char
  | '+' :: text => (false, text)
  | text => scanMinus text

/-- The digits of an exponent, with an optional sign. -/
def scanSigned? (text : List Char) : Option (Int × List Char) :=
  let (negative, text) := scanSign text
  let (digits, rest) := Digits.scan text
  if digits.isEmpty then none
  else
    let n : Int := Digits.toNat digits
    some (if negative then -n else n, rest)

/-- The exponent at the front of a text, or nothing. -/
def scanExponent? : List Char → Option (Option Int × List Char)
  | c :: text =>
    if c = 'e' ∨ c = 'E' then (scanSigned? text).map fun (n, rest) => (some n, rest)
    else some (none, c :: text)
  | [] => some (none, [])

theorem length_scanMinus (text : List Char) : (scanMinus text).2.length ≤ text.length := by
  rw [scanMinus.eq_def]
  split <;> simp

theorem length_scanSign (text : List Char) : (scanSign text).2.length ≤ text.length := by
  rw [scanSign.eq_def]
  split
  · simp
  · exact length_scanMinus _

theorem length_scanSigned {text rest : List Char} {n : Int}
    (h : scanSigned? text = some (n, rest)) : rest.length ≤ text.length := by
  have h₁ := length_scanSign text
  have h₂ := Digits.length_scan (scanSign text).2
  rw [scanSigned?] at h
  simp only at h
  split at h
  · cases h
  · cases h
    omega

theorem length_scanExponent {text rest : List Char} {n : Option Int}
    (h : scanExponent? text = some (n, rest)) : rest.length ≤ text.length := by
  rw [scanExponent?.eq_def] at h
  split at h
  · split at h
    · obtain ⟨⟨m, rest'⟩, hs, heq⟩ := Option.map_eq_some_iff.1 h
      cases heq
      have := length_scanSigned hs
      simp only [List.length_cons]
      omega
    · cases h
      exact Nat.le_refl _
  · cases h
    exact Nat.le_refl _

/-- The integer that a text is: an optional sign and digits. -/
def integer? (text : List Char) : Option Int :=
  match scanSigned? text with
  | some (n, []) => some n
  | _ => none

/-- The natural number that a text is: an optional plus and digits. -/
def natural? (text : List Char) : Option Nat :=
  let digits := match text with
    | '+' :: digits => digits
    | digits => digits
  match Digits.scan digits with
  | ([], _) => none
  | (digits, []) => some (Digits.toNat digits)
  | _ => none

/-- The digits behind a point at the front of a text. -/
def scanPoint : List Char → List Digit × List Char
  | '.' :: text => Digits.scan text
  | text => ([], text)

/-- The numeral that a text without its sign is. There is a digit on at least one side of the point. -/
def unsigned? (negative : Bool) (text : List Char) : Option Numeral :=
  let (whole, text) := Digits.scan text
  let (fraction, text) := scanPoint text
  if whole.isEmpty && fraction.isEmpty then none
  else
    match scanExponent? text with
    | some (exponent, []) => some ⟨negative, Digits.toNat whole, fraction, exponent⟩
    | _ => none

end Numeral

/-- The number of the format `F` that a text is. -/
def Binary.ofLiteral? (F : FloatFormat) (text : List Char) : Option (Binary F) :=
  let (negative, magnitude) := Numeral.scanSign text
  let word := String.ofList (magnitude.map Char.toLower)
  if word = "inf" ∨ word = "infinity" then some (.infinite negative)
  else if word = "nan" then some .nan
  else (Numeral.unsigned? negative magnitude).map (Numeral.round F)

end CommandLink
