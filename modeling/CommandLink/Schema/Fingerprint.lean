import CommandLink.Checksum
import CommandLink.Schema.Description
import CommandLink.Text.Hex

/-!
# Schema fingerprints

Peers recognise each other's schema by a 32-bit hash of its canonical bytes: the protocol version,
the version of the header layout, and every message type in ascending order of its id with its
name and its fields in order. The order in which a description lists its message types does not
enter; the order of the fields does.
-/

namespace CommandLink

/-- The version that every packet header carries. -/
structure ProtocolVersion where
  major : UInt8
  minor : UInt8
deriving DecidableEq, Repr

namespace ProtocolVersion

/-- The version spoken here. -/
def current : ProtocolVersion := ⟨2, 4⟩

/-- A version as it appears in messages. -/
def text (v : ProtocolVersion) : String := s!"{v.major}.{v.minor}"

end ProtocolVersion

/-- The fingerprint of a schema. -/
structure SchemaHash where
  value : UInt32
deriving DecidableEq, Repr

namespace SchemaHash

/-- A hash as it appears in messages. -/
def text (h : SchemaHash) : String := "0x" ++ Hex.padded .upper 8 h.value.toNat

/-- The four bytes of a hash on the wire. -/
def toBytes (h : SchemaHash) : Bytes := Bytes.ofNat 4 h.value.toNat

/-- The hash with the given bytes. -/
def ofBytes (bytes : Bytes) : SchemaHash := ⟨UInt32.ofNat (Bytes.toNat bytes)⟩

@[simp] theorem length_toBytes (h : SchemaHash) : h.toBytes.length = 4 := rfl

theorem ofBytes_toBytes (h : SchemaHash) : ofBytes h.toBytes = h := by
  have fits : h.value.toNat < 256 ^ 4 := h.value.toNat_lt
  rw [ofBytes, toBytes, Bytes.toNat_ofNat, Nat.mod_eq_of_lt fits, UInt32.ofNat_toNat]

end SchemaHash

namespace Fingerprint

/-- The version of the packet header layout. -/
def headerLayout : UInt8 := 1

/-- The bytes that canonical bytes begin with. -/
def domain : Bytes := Bytes.ofString "BCNP-SCHEMA"

/-- A count as four bytes. -/
def countBytes (n : Nat) : Bytes := Bytes.ofNat 4 n

/-- A name after its length in bytes. -/
def nameBytes (name : String) : Bytes :=
  countBytes name.utf8ByteSize ++ Bytes.ofString name

/-- The bits of the scale of a fixed-point type. -/
def scaleBytes (type : FieldType) : Bytes :=
  match type.scale? with
  | some scale => Bytes.ofNat 8 scale.toBits
  | none => []

/-- One field: its name, the tag of its type and its scale. -/
def fieldBytes (f : Field) : Bytes :=
  nameBytes f.name ++ f.type.tag :: scaleBytes f.type

/-- One message type: its id, its name and its fields in order. -/
def messageBytes (m : Message) : Bytes :=
  Bytes.ofNat 2 m.id.toNat ++ nameBytes m.name ++ countBytes m.fields.length
    ++ m.fields.flatMap fieldBytes

/-- The canonical bytes of a description at a protocol version. -/
def canonicalBytes (d : Description) (version : ProtocolVersion) : Bytes :=
  domain ++ [version.major, version.minor, headerLayout] ++ countBytes d.messages.length
    ++ d.sorted.flatMap messageBytes

end Fingerprint

/-- The fingerprint of a description at a protocol version. -/
def Description.hash (d : Description) (version : ProtocolVersion) : SchemaHash :=
  ⟨Checksum.compute (Fingerprint.canonicalBytes d version)⟩

end CommandLink
