import CommandLink.Decimal.Scan
import CommandLink.Json.Basic
import CommandLink.Json.Quoted

/-!
# JSON tokens

What JSON text consists of between white space. `Token.chars` writes a token and `Token.scan?` reads
one from the front of a text.
-/

namespace CommandLink

/-- A piece of JSON text. -/
inductive Token where
  | openArray
  | closeArray
  | openObject
  | closeObject
  | comma
  | colon
  | null
  | bool (b : Bool)
  | number (n : Numeral)
  | string (text : Option String)

namespace Token

/-- The characters of a token. A string without a text has no written form and is left out. -/
def chars : Token → List Char
  | openArray => ['[']
  | closeArray => [']']
  | openObject => ['\x7b']
  | closeObject => ['\x7d']
  | comma => [',']
  | colon => [':']
  | null => ['n', 'u', 'l', 'l']
  | bool true => ['t', 'r', 'u', 'e']
  | bool false => ['f', 'a', 'l', 's', 'e']
  | number n => n.chars
  | string none => []
  | string (some text) => '"' :: Quoted.encode text.toList ++ ['"']

/-- Only these four characters are white space. -/
def isBlank (c : Char) : Bool := c == ' ' || c == '\t' || c == '\n' || c == '\r'

/-- The fraction at the front of a text: a point and at least one digit, or nothing. -/
def scanFraction? : List Char → Option (List Digit × List Char)
  | '.' :: text =>
    let (digits, rest) := Digits.scan text
    if digits.isEmpty then none else some (digits, rest)
  | text => some ([], text)

/-- Whether digits are a whole number as JSON writes it: there are some, and the first is a zero only
if it is the only one. -/
def isWhole : List Digit → Bool
  | [] => false
  | [_] => true
  | d :: _ => d != 0

/-- The number at the front of a text. -/
def scanNumber? (text : List Char) : Option (Numeral × List Char) :=
  let (negative, text) := Numeral.scanMinus text
  let (whole, text) := Digits.scan text
  if isWhole whole then
    match scanFraction? text with
    | none => none
    | some (fraction, text) =>
      match Numeral.scanExponent? text with
      | none => none
      | some (exponent, rest) => some (⟨negative, Digits.toNat whole, fraction, exponent⟩, rest)
  else none

/-- The string at the front of a text, behind its opening quote. -/
def scanString? (text : List Char) : Option (Token × List Char) :=
  match Quoted.scan text [] with
  | none => none
  | some (units, rest) => some (string ((Quoted.assemble units []).map String.ofList), rest)

/-- The token at the front of a text. -/
def scan? : List Char → Option (Token × List Char)
  | '[' :: text => some (openArray, text)
  | ']' :: text => some (closeArray, text)
  | '\x7b' :: text => some (openObject, text)
  | '\x7d' :: text => some (closeObject, text)
  | ',' :: text => some (comma, text)
  | ':' :: text => some (colon, text)
  | '"' :: text => scanString? text
  | 'n' :: 'u' :: 'l' :: 'l' :: text => some (null, text)
  | 't' :: 'r' :: 'u' :: 'e' :: text => some (bool true, text)
  | 'f' :: 'a' :: 'l' :: 's' :: 'e' :: text => some (bool false, text)
  | text => (scanNumber? text).map fun (n, rest) => (number n, rest)

/-! ## A token is never empty -/

theorem length_scanFraction {text rest : List Char} {digits : List Digit}
    (h : scanFraction? text = some (digits, rest)) : rest.length ≤ text.length := by
  rw [scanFraction?.eq_def] at h
  split at h
  · rename_i text
    have := Digits.length_scan text
    simp only at h
    split at h
    · cases h
    · cases h
      simp only [List.length_cons]
      omega
  · cases h
    exact Nat.le_refl _

theorem length_scanNumber {text rest : List Char} {n : Numeral}
    (h : scanNumber? text = some (n, rest)) : rest.length < text.length := by
  have h₁ := Numeral.length_scanMinus text
  have h₂ := Digits.length_scan (Numeral.scanMinus text).2
  rw [scanNumber?] at h
  simp only at h
  split at h
  · rename_i hwhole
    have : 0 < (Digits.scan (Numeral.scanMinus text).2).1.length := by
      cases hd : (Digits.scan (Numeral.scanMinus text).2).1 with
      | nil => simp [hd, isWhole] at hwhole
      | cons => simp
    split at h
    · cases h
    · rename_i hf
      have h₃ := length_scanFraction hf
      split at h
      · cases h
      · rename_i he
        have h₄ := Numeral.length_scanExponent he
        cases h
        omega
  · cases h

theorem length_scan_lt {text rest : List Char} {token : Token}
    (h : scan? text = some (token, rest)) : rest.length < text.length := by
  rw [scan?.eq_def] at h
  split at h <;> try (cases h; simp; try omega)
  · rename_i text
    rw [scanString?] at h
    split at h
    · cases h
    · rename_i hs
      cases h
      exact Nat.lt_succ_of_lt (Quoted.length_scan_lt hs)
  · obtain ⟨⟨n, rest'⟩, hs, heq⟩ := Option.map_eq_some_iff.1 h
    cases heq
    exact length_scanNumber hs

end Token

end CommandLink
