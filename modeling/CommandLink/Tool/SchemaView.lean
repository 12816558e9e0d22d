import CommandLink.Packet.Header
import CommandLink.Schema.Layout
import CommandLink.Schema.Basic
import CommandLink.Tool.CommandLine
import CommandLink.Tool.Report
import CommandLink.Tool.Table

/-!
# Views of a schema

The message types of a schema in ascending order of their ids, with the offset and size of every
field, and the schema's hash.
-/

namespace CommandLink

namespace Placement

/-- The type of a field with its scale, for readers. -/
def label (p : Placement) : String :=
  match p.field.type.scale? with
  | some scale => s!"{p.field.type.name}(x{scale.text})"
  | none => p.field.type.name

/-- A placed field as JSON. -/
def toJson (p : Placement) : Json :=
  let scale := match p.field.type.scale? with
    | some scale => [("scale", Json.ofBinary scale)]
    | none => []
  .ofMembers ([("name", .ofString p.field.name), ("type", .ofString p.field.type.name)] ++ scale
    ++ [("offset", .ofInt p.offset), ("size", .ofInt p.field.type.wireSize)])

/-- The row of a placed field of a message type. -/
def row (m : Message) (p : Placement) : List String :=
  [m.id.toNat.repr, m.name, p.field.name, p.label, p.offset.repr, p.field.type.wireSize.repr]

/-- The line of a placed field. -/
def line (p : Placement) : String :=
  "    +" ++ Text.padRight 3 p.offset.repr ++ " " ++ Text.padRight 12 p.field.name ++ " " ++ p.label

end Placement

/-- A message type with its layout as JSON. -/
def Message.layoutJson (m : Message) : Json :=
  .ofMembers [("id", .ofInt m.id.toNat), ("name", .ofString m.name),
    ("wire_size", .ofInt m.wireSize), ("fields", .array (m.placements.map Placement.toJson))]

/-- The lines of a message type. -/
def Message.layoutLines (m : Message) : List String :=
  s!"  {m.id} {m.name} ({m.wireSize} bytes)" :: m.placements.map Placement.line

namespace Schema

/-- A schema with its layouts as JSON. -/
def layoutJson (s : Schema) : Json :=
  .ofMembers [("protocol_version", .ofString s.version.text), ("schema_hash", .ofString s.hash.text),
    ("header_size", .ofInt Header.size), ("checksum_size", .ofInt Checksum.size),
    ("messages", .array (s.messages.map Message.layoutJson))]

/-- The table of all fields. -/
def layoutTable (s : Schema) : Table where
  header := ["ID", "MESSAGE", "FIELD", "TYPE", "OFFSET", "SIZE"]
  rows := s.messages.flatMap fun m => m.placements.map (Placement.row m)

/-- A schema as it is printed. -/
def view (s : Schema) : OutputFormat → Bytes
  | .json => s.layoutJson.line
  | .table =>
    linesBytes [s!"protocol {s.version.text}  schema hash {s.hash.text}", s.layoutTable.text]
  | .pretty =>
    linesBytes ([s!"Protocol:    {s.version.text}", s!"Schema hash: {s.hash.text}"]
      ++ s.messages.flatMap Message.layoutLines)
  | .raw => s.hash.toBytes

end Schema

end CommandLink
