import CommandLink.Json.Access
import CommandLink.Json.Printer
import CommandLink.Json.Reader
import CommandLink.Record.Value

/-!
# Records as JSON

A record is an array of its values. A value is a truth value or a number; a number without point and
exponent that fits in 64 bits is an integer, and every other number is a double-precision one. A
double-precision number is always written with a point or an exponent, so the kinds stay apart.
-/

namespace CommandLink

namespace FieldValue

/-- A value as JSON. -/
def toJson : FieldValue → Json
  | bool b => .bool b
  | int n => .ofInt n.toInt
  | float x => .ofBinary x

/-- The integer that a numeral stands for, if it fits in 64 bits. -/
def int64? (n : Numeral) : Option Int64 :=
  match n.toInt? with
  | some i => if -2 ^ 63 ≤ i ∧ i < 2 ^ 63 then some (Int64.ofInt i) else none
  | none => none

/-- The value that a JSON value is. -/
def ofJson? : Json → Option FieldValue
  | .bool b => some (bool b)
  | .number n =>
    match int64? n with
    | some i => some (int i)
    | none => (Json.asBinary64? (.number n)).map float
  | _ => none

end FieldValue

namespace Record

/-- A record as JSON. -/
def toJson (r : Record) : Json := .array (r.map FieldValue.toJson)

/-- The record that a JSON value is. -/
def ofJson? (j : Json) : Option Record := do (← j.asItems? 0).mapM FieldValue.ofJson?

end Record

end CommandLink
