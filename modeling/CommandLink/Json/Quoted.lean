import CommandLink.Text.Hex

/-!
# Quoted strings

The characters of a JSON string. `Quoted.encode` escapes quotes, backslashes and control
characters; `Quoted.scan` reads a string up to its closing quote as text units, and `Quoted.assemble`
makes text of them: two escapes for the halves of a surrogate pair are one character.
-/

namespace CommandLink.Quoted

/-- The escape of a character, or the character itself. -/
def encodeChar (c : Char) : List Char :=
  if c = '"' then ['\\', '"']
  else if c = '\\' then ['\\', '\\']
  else if c = '\x08' then ['\\', 'b']
  else if c = '\t' then ['\\', 't']
  else if c = '\n' then ['\\', 'n']
  else if c = '\x0c' then ['\\', 'f']
  else if c = '\r' then ['\\', 'r']
  else if c.toNat < 32 then '\\' :: 'u' :: Hex.paddedOnto .lower 4 c.toNat []
  else [c]

/-- The characters between the quotes. -/
def encode (text : List Char) : List Char := text.flatMap encodeChar

/-- What a character or an escape stands for. -/
inductive TextUnit where
  | char (c : Char)
  /-- A 16-bit unit from a hexadecimal escape. -/
  | code (n : Nat)
deriving DecidableEq, Repr

/-- The character that a letter behind a backslash stands for. -/
def escaped? (letter : Char) : Option Char :=
  if letter = '"' then some '"'
  else if letter = '\\' then some '\\'
  else if letter = '/' then some '/'
  else if letter = 'b' then some '\x08'
  else if letter = 'f' then some '\x0c'
  else if letter = 'n' then some '\n'
  else if letter = 'r' then some '\r'
  else if letter = 't' then some '\t'
  else none

/-- The value of a hexadecimal digit. -/
def hexDigit? (c : Char) : Option Nat :=
  if c.toNat < 128 then Hex.digit? (UInt8.ofNat c.toNat) else none

/-- The number with four hexadecimal digits. -/
def hexCode? (a b c d : Char) : Option Nat :=
  match hexDigit? a, hexDigit? b, hexDigit? c, hexDigit? d with
  | some a, some b, some c, some d => some (((a * 16 + b) * 16 + c) * 16 + d)
  | _, _, _, _ => none

/-- Reads up to the closing quote, after the units `done`, which come in reverse: the units and what
follows the quote. -/
def scan : (text : List Char) → (done : List TextUnit) → Option (List TextUnit × List Char)
  | [], _ => none
  | c :: text, done =>
    if c = '"' then some (done.reverse, text)
    else if c = '\\' then
      match text with
      | 'u' :: a :: b :: c :: d :: text =>
        match hexCode? a b c d with
        | some n => scan text (.code n :: done)
        | none => none
      | letter :: text =>
        match escaped? letter with
        | some c => scan text (.char c :: done)
        | none => none
      | [] => none
    else if c.toNat < 32 then none
    else scan text (.char c :: done)

/-- The text of units, after the characters `done`, which come in reverse; nothing if half a
surrogate pair stands alone. -/
def assemble : (units : List TextUnit) → (done : List Char) → Option (List Char)
  | [], done => some done.reverse
  | .char c :: units, done => assemble units (c :: done)
  | .code n :: units, done =>
    if n < 0xD800 ∨ 0xDFFF < n then assemble units (Char.ofNat n :: done)
    else if 0xDBFF < n then none
    else
      match units with
      | .code m :: units =>
        if 0xDC00 ≤ m ∧ m ≤ 0xDFFF then
          assemble units (Char.ofNat (0x10000 + (n - 0xD800) * 0x400 + (m - 0xDC00)) :: done)
        else none
      | _ => none

theorem length_scan_lt {text rest : List Char} {done units : List TextUnit}
    (h : scan text done = some (units, rest)) : rest.length < text.length := by
  fun_induction scan text done with
  | case1 | case4 | case6 | case7 | case8 => cases h
  | case2 =>
    -- the closing quote
    cases h
    exact Nat.lt_succ_self _
  | case3 done a b c d text n hcode hne ih =>
    have hshorter := ih h
    simp only [List.length_cons]
    omega
  | case5 done letter text hnot c hescaped hne ih =>
    have hshorter := ih h
    simp only [List.length_cons]
    omega
  | case9 c text done hquote hescape hcontrol ih => exact Nat.lt_succ_of_lt (ih h)

end CommandLink.Quoted
