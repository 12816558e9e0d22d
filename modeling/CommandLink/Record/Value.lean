import CommandLink.Decimal.Numeral

/-!
# Field values

A field of a record holds a truth value, a 64-bit integer or a double-precision number. Integers
count as numbers where a number is asked for; truth values never do.
-/

namespace CommandLink

/-- The value of one field. -/
inductive FieldValue where
  | bool (b : Bool)
  | int (n : Int64)
  | float (x : Binary64)
deriving DecidableEq, Repr

namespace FieldValue

/-- The truth value that a value is. -/
def asBool? : FieldValue → Option Bool
  | bool b => some b
  | _ => none

/-- The integer that a value is. -/
def asInt? : FieldValue → Option Int64
  | int n => some n
  | _ => none

/-- The number that a value is or widens to. -/
def asFloat? : FieldValue → Option Binary64
  | float x => some x
  | int n => some (Binary.ofInt n.toInt)
  | bool _ => none

/-- A value as it appears in messages and tables. -/
def text : FieldValue → String
  | bool b => if b then "true" else "false"
  | int n => (Numeral.ofInt n.toInt).text
  | float x => x.text

/-- Equality of values: numbers compare as numbers, and kinds do not mix. -/
def equals : FieldValue → FieldValue → Bool
  | bool a, bool b => a == b
  | int m, int n => m == n
  | float x, float y => x.equals y
  | _, _ => false

end FieldValue

/-- One message record: the values of the fields in the order of their declaration. -/
abbrev Record := List FieldValue

/-- Equality of records, value by value. -/
def Record.equals : Record → Record → Bool
  | [], [] => true
  | v :: r, w :: s => v.equals w && Record.equals r s
  | _, _ => false

end CommandLink
