import CommandLink.Packet.Codec
import CommandLink.Record.Json
import CommandLink.Tool.CommandLine
import CommandLink.Tool.HexInput
import CommandLink.Tool.Table

/-!
# Views of packets

An encoded packet is shown as hexadecimal digits, a decoded one record by record with the names of
the fields.
-/

namespace CommandLink

namespace Packet

/-! ## Encoded packets -/

/-- The packet of a batch of so many drive commands, as it is printed. -/
def encodedView (count : Nat) (flags : Flags) (bytes : Bytes) : OutputFormat → Bytes
  | .json =>
    (Json.ofMembers [("type_id", .ofInt DriveCommand.typeId.toNat), ("records", .ofInt count),
      ("flags", .ofInt flags.bits.toNat), ("size", .ofInt bytes.length),
      ("hex", .ofString (Hex.ofBytes bytes))]).line
  | .table =>
    linesBytes [(Table.mk ["RECORDS", "FLAGS", "SIZE", "BYTES"]
      [[count.repr, flags.text, bytes.length.repr, Hex.spaced bytes]]).text]
  | .pretty => linesBytes [Hex.spaced bytes]
  | .raw => bytes

/-- What is printed about a batch of drive commands. -/
def encodeReport (s : Schema) (commands : List DriveCommand) (flags : Flags)
    (format : OutputFormat) : Except ToolFailure Bytes :=
  match encodeCommands s commands flags with
  | .ok bytes => .ok (encodedView commands.length flags bytes format)
  | .error cause => .error (.encode cause)

/-! ## Decoded packets -/

/-- The values of a record with the names of their fields. -/
def namedValues (m : Message) (record : Record) : List (String × FieldValue) :=
  (m.fields.map Field.name).zip record

/-- A record as JSON: its values under the names of their fields, in the order of the names. -/
def recordJson (m : Message) (record : Record) : Json :=
  .ofEntries ((namedValues m record).map fun (name, value) => (name, value.toJson))

/-- A packet as JSON. -/
def toJson (m : Message) (p : Packet) : Json :=
  .ofMembers [("protocol_version", .ofString p.header.version.text),
    ("type_id", .ofInt p.typeId.toNat), ("message", .ofString m.name),
    ("flags", .ofInt p.header.flags.bits.toNat), ("clear_queue", .bool p.header.flags.clearsQueue),
    ("count", .ofInt p.records.length), ("records", .array (p.records.map (recordJson m)))]

/-- The table of all records. -/
def recordTable (m : Message) (p : Packet) : Table where
  header := "#" :: m.fields.map Field.name
  rows := p.records.zipIdx.map fun (record, index) => index.repr :: record.map FieldValue.text

/-- The line of the record at `index`. -/
def recordLine (m : Message) (record : Record) (index : Nat) : String :=
  let fields := (namedValues m record).map fun (name, value) => s!"{name}={value.text}"
  s!"  [{index}] " ++ " ".intercalate fields

/-- A packet of the given message type, as it is printed. -/
def decodedView (m : Message) (p : Packet) : OutputFormat → Bytes
  | .json => (p.toJson m).line
  | .table =>
    let count := p.records.length
    linesBytes [s!"version {p.header.version.text}  flags {p.header.flags.text}  records {count}",
      (p.recordTable m).text]
  | .pretty =>
    let count := p.records.length
    linesBytes (s!"version={p.header.version.text} flags={p.header.flags.text} records={count}"
      :: p.records.zipIdx.map fun (record, index) => recordLine m record index)
  | .raw => linesBytes (p.records.map fun record => ",".intercalate (record.map FieldValue.text))

/-- What is printed about a packet in hexadecimal form. -/
def decodeReport (s : Schema) (typeId : UInt16) (packet : String) (format : OutputFormat) :
    Except ToolFailure Bytes := do
  let bytes ← HexInput.parse "packet" packet
  match s.message? typeId with
  | none => .error (.decode (.unknownMessageType typeId))
  | some m =>
    match decode s typeId bytes with
    | .ok p => .ok (decodedView m p format)
    | .error cause => .error (.decode cause)

end Packet

end CommandLink
