import CommandLink.Decimal.Scan
import CommandLink.Json.Access
import CommandLink.Json.Printer
import CommandLink.Record.Codec
import CommandLink.Schema.Basic
import CommandLink.Text.Blank

/-!
# Drive commands

The one message type that every peer knows: drive with a linear velocity and an angular rate for a
number of milliseconds. A command is the typed form of a record of the built-in schema. It can also be
given as JSON, or typed on a command line.
-/

namespace CommandLink

/-- Drive at `vx` metres and `omega` radians a second for `durationMs` milliseconds. -/
structure DriveCommand where
  vx : Binary32
  omega : Binary32
  durationMs : UInt16
deriving DecidableEq, Repr

namespace DriveCommand

/-- The id of the message type. -/
def typeId : UInt16 := 1

/-- Both rates travel in steps of one ten-thousandth. -/
def scale : Binary64 := Binary.ofInt 10000

/-- The message type of drive commands. -/
def message : Message where
  id := typeId
  name := "DriveCmd"
  fields := [⟨"vx", .fixed32 scale⟩, ⟨"omega", .fixed32 scale⟩, ⟨"durationMs", .u16⟩]

/-- The record of a command. -/
def toRecord (c : DriveCommand) : Record :=
  [.float c.vx.widen, .float c.omega.widen, .int (Int64.ofInt c.durationMs.toNat)]

/-- The finite single-precision number that a value narrows to. -/
def rate (name : String) (value : FieldValue) : Except RecordError Binary32 :=
  match value.asFloat? with
  | none => .error (.field name (.kindMismatch .numeric))
  | some x =>
    if x.narrow.isFinite then .ok x.narrow else .error (.field name .nonFinite)

/-- The 16-bit number that a value is. -/
def duration (name : String) (value : FieldValue) : Except RecordError UInt16 :=
  match value.asInt? with
  | none => .error (.field name (.kindMismatch .integer))
  | some n =>
    if 0 ≤ n.toInt ∧ n.toInt < 65536 then .ok (UInt16.ofNat n.toInt.toNat)
    else .error (.field name (.outOfRange value .u16))

/-- The command of a record. -/
def ofRecord : Record → Except RecordError DriveCommand
  | [vx, omega, ms] => do
    return ⟨← rate "vx" vx, ← rate "omega" omega, ← duration "durationMs" ms⟩
  | record => .error (.fieldCount 3 record.length)

/-! ## JSON -/

/-- A command as JSON. -/
def toJson (c : DriveCommand) : Json :=
  .ofMembers [("vx", .ofBinary c.vx), ("omega", .ofBinary c.omega),
    ("durationMs", .ofInt c.durationMs.toNat)]

/-- The command that a value is. -/
def ofJson? (j : Json) : Option DriveCommand := do
  match ← j.asFields? 0 ["vx", "omega", "durationMs"] with
  | [vx, omega, ms] =>
    return ⟨← vx.asBinary32?, ← omega.asBinary32?, UInt16.ofNat (← ms.asNat? (2 ^ 16))⟩
  | _ => none

/-! ## Typed commands -/

/-- The duration that a text is. -/
def durationOfText? (text : List Char) : Option UInt16 :=
  match Numeral.natural? text with
  | some n => if n < 2 ^ 16 then some (UInt16.ofNat n) else none
  | none => none

/-- The command that a text is: its velocity, rate and duration with commas between them. White space
around each part does not count. -/
def ofText? (text : String) : Option DriveCommand :=
  match (Text.split ',' text.toList).map Text.trim with
  | [vx, omega, ms] => do
    return ⟨← Binary.ofLiteral? .binary32 vx, ← Binary.ofLiteral? .binary32 omega,
      ← durationOfText? ms⟩
  | _ => none

end DriveCommand

/-- The description that peers agree on unless they load another. -/
def Description.builtin : Description := ⟨[DriveCommand.message]⟩

theorem Description.builtin_wellFormed : Description.builtin.WellFormed :=
  (Description.violation?_eq_none_iff.1
    (by decide +kernel : Description.builtin.violation? .standard = none)).1

/-- The built-in schema at the version spoken here. -/
def Schema.builtin : Schema := ⟨.current, .builtin, Description.builtin_wellFormed⟩

end CommandLink
