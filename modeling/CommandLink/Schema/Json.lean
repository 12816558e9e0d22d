import CommandLink.Json.Access
import CommandLink.Json.Printer
import CommandLink.Json.Reader
import CommandLink.Schema.Basic

/-!
# Descriptions as JSON

A field type is an object whose member `kind` names the type; a fixed-point type has its `scale`
beside it. Fields, message types and descriptions are objects with their parts as members. Each of
them may also be an array of its parts in order.
-/

namespace CommandLink

namespace FieldType

/-- A field type as JSON. -/
def toJson (type : FieldType) : Json :=
  let kind := ("kind", Json.ofString type.name)
  match type.scale? with
  | some scale => .ofMembers [kind, ("scale", .ofBinary scale)]
  | none => .ofMembers [kind]

/-- The field type of a kind. The scale is asked for only by fixed-point types. -/
def ofKind? (kind : String) (scale? : Option Binary64) : Option FieldType :=
  match kind with
  | "u8" => some u8
  | "i8" => some i8
  | "u16" => some u16
  | "i16" => some i16
  | "u32" => some u32
  | "i32" => some i32
  | "bool" => some bool
  | "f32" => some f32
  | "fixed32" => scale?.map fixed32
  | _ => none

/-- The field type that a value inside `depth` others is. The other members are kept until the kind
is known, so they have to be plain. As an array, it is the kind and exactly the parts of the kind. -/
def ofJson? (depth : Nat) : Json → Option FieldType
  | .array (kind :: parts) => do
    let kind ← kind.asString?
    guard ((Json.array (.null :: parts)).isPlain depth)
    match parts with
    | [] => ofKind? kind none
    | [scale] => if kind = "fixed32" then ofKind? kind scale.asBinary64? else none
    | _ => none
  | .object members => do
    guard ((Json.object members).isPlain depth)
    let kind ← (← Json.only? "kind" members).asString?
    ofKind? kind ((Json.only? "scale" members).bind Json.asBinary64?)
  | _ => none

end FieldType

/-- A field as JSON. -/
def Field.toJson (f : Field) : Json :=
  .ofMembers [("name", .ofString f.name), ("type", f.type.toJson)]

/-- The field that a value inside `depth` others is. -/
def Field.ofJson? (depth : Nat) (j : Json) : Option Field := do
  match ← j.asFields? depth ["name", "type"] with
  | [name, type] => return ⟨← name.asString?, ← FieldType.ofJson? (depth + 1) type⟩
  | _ => none

/-- A message type as JSON. -/
def Message.toJson (m : Message) : Json :=
  .ofMembers [("id", .ofInt m.id.toNat), ("name", .ofString m.name),
    ("fields", .array (m.fields.map Field.toJson))]

/-- A 16-bit id. -/
def messageId? (j : Json) : Option UInt16 := (j.asNat? (2 ^ 16)).map UInt16.ofNat

/-- The message type that a value inside `depth` others is. -/
def Message.ofJson? (depth : Nat) (j : Json) : Option Message := do
  match ← j.asFields? depth ["id", "name", "fields"] with
  | [id, name, fields] =>
    return {
      id := ← messageId? id
      name := ← name.asString?
      fields := ← (← fields.asItems? (depth + 1)).mapM (Field.ofJson? (depth + 2)) }
  | _ => none

namespace Description

/-- A description as JSON. -/
def toJson (d : Description) : Json :=
  .ofMembers [("messages", .array (d.messages.map Message.toJson))]

/-- The description that a value is. -/
def ofJson? (j : Json) : Option Description := do
  match ← j.asFields? 0 ["messages"] with
  | [messages] => return ⟨← (← messages.asItems? 1).mapM (Message.ofJson? 2)⟩
  | _ => none

/-- The description with the given JSON text. -/
def ofText (text : String) : Except SchemaError Description :=
  match (Json.parse? text).bind ofJson? with
  | some d => .ok d
  | none => .error .invalidJson

end Description

/-- A protocol version as JSON. -/
def ProtocolVersion.toJson (v : ProtocolVersion) : Json :=
  .ofMembers [("major", .ofInt v.major.toNat), ("minor", .ofInt v.minor.toNat)]

/-- The protocol version that a value is. -/
def ProtocolVersion.ofJson? (j : Json) : Option ProtocolVersion := do
  match ← j.asFields? 0 ["major", "minor"] with
  | [major, minor] =>
    return ⟨UInt8.ofNat (← major.asNat? (2 ^ 8)), UInt8.ofNat (← minor.asNat? (2 ^ 8))⟩
  | _ => none

/-- A schema hash as JSON: its number. -/
def SchemaHash.toJson (h : SchemaHash) : Json := .ofInt h.value.toNat

/-- The schema hash that a value is. -/
def SchemaHash.ofJson? (j : Json) : Option SchemaHash :=
  (j.asNat? (2 ^ 32)).map fun n => ⟨UInt32.ofNat n⟩

end CommandLink
