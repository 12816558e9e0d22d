import CommandLink.Bytes

/-!
# Hexadecimal text

`Hex.ofBytes` writes two lowercase digits for each byte; `Hex.toBytes` reads digits of either case
and says what is wrong with any other text: an odd number of digits before a character that is no
digit, and of those the first. A message shows that character in a form that prints (`Hex.shown`).
-/

namespace CommandLink

/-- The case of the digits above nine. -/
inductive LetterCase where
  | lower
  | upper
deriving DecidableEq, Repr

namespace Hex

/-- The character of a hexadecimal digit. -/
def digitChar (letters : LetterCase) (d : Nat) : Char :=
  if d < 10 then Char.ofNat (48 + d)
  else match letters with
    | .lower => Char.ofNat (87 + d)
    | .upper => Char.ofNat (55 + d)

/-- The last `count` hexadecimal digits of `n`, before `rest`. -/
def paddedOnto (letters : LetterCase) : (count n : Nat) → (rest : List Char) → List Char
  | 0, _, rest => rest
  | count + 1, n, rest => paddedOnto letters count (n / 16) (digitChar letters (n % 16) :: rest)

/-- The last `count` hexadecimal digits of `n`, with leading zeros. -/
def padded (letters : LetterCase) (count n : Nat) : String :=
  String.ofList (paddedOnto letters count n [])

/-- The hexadecimal digits of `n` without leading zeros. -/
def ofNat (letters : LetterCase) (n : Nat) : String :=
  padded letters (Nat.log2 n / 4 + 1) n

/-- The two lowercase digits of a byte. -/
def byteChars (b : UInt8) : List Char :=
  [digitChar .lower (b.toNat / 16), digitChar .lower (b.toNat % 16)]

/-- The lowercase digits of a byte string. -/
def ofBytes (bytes : Bytes) : String := String.ofList (bytes.flatMap byteChars)

/-- The digits of a byte string with a blank between bytes. -/
def spaced (bytes : Bytes) : String :=
  " ".intercalate (bytes.map fun b => String.ofList (byteChars b))

/-- Why a text is not the hexadecimal form of a byte string. -/
inductive Error where
  | oddLength
  /-- The byte of the text at `position` is no digit. -/
  | invalidCharacter (byte : UInt8) (position : Nat)
deriving DecidableEq, Repr

/-- Whether the Latin-1 character of a byte prints: it is no control character, no unbreakable blank
and no soft hyphen. -/
def prints (b : UInt8) : Bool := 0x20 ≤ b && b ≤ 0x7E || 0xA1 ≤ b && b != 0xAD

/-- The Latin-1 character of a byte as it stands between single quotes: as it is if it prints, and
otherwise as an escape. -/
def shown (b : UInt8) : String :=
  if b = 0x00 then "\\0"
  else if b = 0x09 then "\\t"
  else if b = 0x0A then "\\n"
  else if b = 0x0D then "\\r"
  else if b = 0x27 then "\\'"
  else if b = 0x5C then "\\\\"
  else if prints b then String.ofList [Char.ofNat b.toNat]
  else "\\u\x7b" ++ ofNat .lower b.toNat ++ "\x7d"

/-- The wording of a refusal. -/
def Error.message : Error → String
  | .oddLength => "Odd number of digits"
  | .invalidCharacter byte position =>
    s!"Invalid character '{shown byte}' at position {position}"

/-- The value of a digit in either case. -/
def digit? (b : UInt8) : Option Nat :=
  let n := b.toNat
  if 48 ≤ n ∧ n < 58 then some (n - 48)
  else if 97 ≤ n ∧ n < 103 then some (n - 87)
  else if 65 ≤ n ∧ n < 71 then some (n - 55)
  else none

/-- The value of the digit at `position`. -/
def digitAt (b : UInt8) (position : Nat) : Except Error Nat :=
  match digit? b with
  | some d => .ok d
  | none => .error (.invalidCharacter b position)

/-- Reads pairs of digits from `position` on; `done` holds the bytes so far, the last one first. -/
def pairs : (digits : Bytes) → (position : Nat) → (done : Bytes) → Except Error Bytes
  | high :: low :: rest, position, done =>
    match digitAt high position with
    | .error e => .error e
    | .ok h =>
      match digitAt low (position + 1) with
      | .error e => .error e
      | .ok l => pairs rest (position + 2) (UInt8.ofNat (h * 16 + l) :: done)
  | _, _, done => .ok done.reverse

/-- The byte string with the given digits. -/
def toBytes (digits : Bytes) : Except Error Bytes :=
  if digits.length % 2 = 1 then .error .oddLength else pairs digits 0 []

end Hex

end CommandLink
