import CommandLink.Record.Value
import CommandLink.Schema.FieldType
import CommandLink.Text.Hex

/-!
# Refused records

What can be wrong with the value of one field (`FieldFault`), and with a record as a whole
(`RecordError`).
-/

namespace CommandLink

/-- The kinds of values that fields ask for. -/
inductive ValueKind where
  | boolean
  | integer
  | numeric
deriving DecidableEq, Repr

/-- The word for a kind. -/
def ValueKind.text : ValueKind → String
  | boolean => "boolean"
  | integer => "integer"
  | numeric => "numeric"

/-- The kind of values that a field of a type asks for. -/
def FieldType.kind : FieldType → ValueKind
  | bool => .boolean
  | f32 | fixed32 _ => .numeric
  | _ => .integer

/-- What is wrong with the value of a field. -/
inductive FieldFault where
  | kindMismatch (expected : ValueKind)
  /-- The number does not fit in the wire type. -/
  | outOfRange (value : FieldValue) (type : FieldType)
  | fixedPoint (cause : FixedPoint.Error)
  /-- The number is NaN or infinite. -/
  | nonFinite
  /-- The byte of a truth value is neither 0 nor 1. -/
  | invalidBool (byte : UInt8)
deriving DecidableEq, Repr

/-- Whether a number is refused because the wire type cannot carry it. -/
def FieldFault.isNumericOverflow : FieldFault → Bool
  | outOfRange .. | fixedPoint _ | nonFinite => true
  | kindMismatch _ | invalidBool _ => false

/-- The wording of a fault in the field of the given name. -/
def FieldFault.message (field : String) : FieldFault → String
  | kindMismatch expected => s!"field '{field}' expects a {expected.text} value"
  | outOfRange value type => s!"field '{field}' value {value.text} does not fit in {type.name}"
  | fixedPoint cause => s!"field '{field}': {cause.message}"
  | nonFinite => s!"field '{field}' is not a finite number"
  | invalidBool byte =>
    s!"field '{field}' has invalid boolean byte 0x" ++ Hex.padded .lower 2 byte.toNat

/-- Why a record is refused. -/
inductive RecordError where
  /-- The record does not have one value for each field. -/
  | fieldCount (expected actual : Nat)
  /-- There are fewer bytes than a record has. -/
  | truncated (expected actual : Nat)
  | field (name : String) (fault : FieldFault)
deriving DecidableEq, Repr

namespace RecordError

/-- Whether a number is refused because its wire type cannot carry it. -/
def isNumericOverflow : RecordError → Bool
  | field _ fault => fault.isNumericOverflow
  | _ => false

/-- The name of the field at fault. -/
def field? : RecordError → Option String
  | field name _ => some name
  | _ => none

/-- The wording of a refusal. -/
def message : RecordError → String
  | fieldCount expected actual => s!"expected {expected} fields, got {actual}"
  | truncated expected actual => s!"record needs {expected} bytes, got {actual}"
  | field name fault => fault.message name

end RecordError

end CommandLink
