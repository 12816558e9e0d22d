import CommandLink.Record.Error
import CommandLink.Schema.Description

/-!
# Records on the wire

The bytes of one value (`FieldType.encode`, `FieldType.decode`) and of a record, which are those of
its values one after another without anything between them (`Message.encode`, `Message.decode`).
-/

namespace CommandLink

namespace FieldType

/-! ## One value -/

/-- The bytes of an integer between `low` and `high`, in two's complement. -/
def encodeInteger (type : FieldType) (low high : Int) (value : FieldValue) :
    Except FieldFault Bytes :=
  match value.asInt? with
  | none => .error (.kindMismatch type.kind)
  | some n =>
    if low ≤ n.toInt ∧ n.toInt ≤ high then
      .ok (Bytes.ofNat type.wireSize (n.toInt % 256 ^ type.wireSize).toNat)
    else .error (.outOfRange value type)

/-- The integer with the given bytes: what lies above `high` stands for a negative number. -/
def decodeInteger (type : FieldType) (high : Int) (bytes : Bytes) : FieldValue :=
  let n : Int := Bytes.toNat bytes
  .int (Int64.ofInt (if n ≤ high then n else n - 256 ^ type.wireSize))

/-- The finite number that a value is or widens to. -/
def finite (type : FieldType) (value : FieldValue) : Except FieldFault Binary64 :=
  match value.asFloat? with
  | none => .error (.kindMismatch type.kind)
  | some x => if x.isFinite then .ok x else .error .nonFinite

/-- The bytes of a value in a field of this type. -/
def encode (type : FieldType) (value : FieldValue) : Except FieldFault Bytes :=
  match type with
  | u8 => encodeInteger u8 0 255 value
  | i8 => encodeInteger i8 (-128) 127 value
  | u16 => encodeInteger u16 0 65535 value
  | i16 => encodeInteger i16 (-32768) 32767 value
  | u32 => encodeInteger u32 0 4294967295 value
  | i32 => encodeInteger i32 (-2147483648) 2147483647 value
  | bool =>
    match value.asBool? with
    | none => .error (.kindMismatch .boolean)
    | some b => .ok [if b then 1 else 0]
  | f32 =>
    match finite f32 value with
    | .error fault => .error fault
    | .ok x =>
      if x.narrow.isFinite then .ok (Bytes.ofNat 4 x.narrow.toBits)
      else .error (.outOfRange (.float x) f32)
  | fixed32 scale =>
    match finite (fixed32 scale) value with
    | .error fault => .error fault
    | .ok x =>
      match FixedPoint.encode x scale with
      | .error cause => .error (.fixedPoint cause)
      | .ok raw => .ok (Bytes.ofNat 4 raw.toUInt32.toNat)

/-- The value that the bytes of a field of this type stand for. -/
def decode (type : FieldType) (bytes : Bytes) : Except FieldFault FieldValue :=
  match type with
  | u8 => .ok (decodeInteger u8 255 bytes)
  | i8 => .ok (decodeInteger i8 127 bytes)
  | u16 => .ok (decodeInteger u16 65535 bytes)
  | i16 => .ok (decodeInteger i16 32767 bytes)
  | u32 => .ok (decodeInteger u32 4294967295 bytes)
  | i32 => .ok (decodeInteger i32 2147483647 bytes)
  | bool =>
    match Bytes.toNat bytes with
    | 0 => .ok (.bool false)
    | 1 => .ok (.bool true)
    | n => .error (.invalidBool (UInt8.ofNat n))
  | f32 =>
    let x : Binary32 := Binary.ofBits .binary32 (Bytes.toNat bytes)
    if x.isFinite then .ok (.float x.widen) else .error .nonFinite
  | fixed32 scale =>
    let x := FixedPoint.decode (UInt32.ofNat (Bytes.toNat bytes)).toInt32 scale
    if x.isFinite then .ok (.float x) else .error .nonFinite

end FieldType

/-! ## One record -/

/-- Writes values into fields, one after another, until one is refused: the bytes written and the
refusal. -/
def writeFields : List Field → Record → Bytes × Option RecordError
  | f :: fields, v :: values =>
    match f.type.encode v with
    | .error fault => ([], some (.field f.name fault))
    | .ok bytes =>
      let (rest, refusal) := writeFields fields values
      (bytes ++ rest, refusal)
  | _, _ => ([], none)

/-- Reads one value for each field from the front of `bytes`. -/
def readFields : List Field → Bytes → Except RecordError Record
  | [], _ => .ok []
  | f :: fields, bytes =>
    match f.type.decode (bytes.take f.type.wireSize) with
    | .error fault => .error (.field f.name fault)
    | .ok v =>
      match readFields fields (bytes.drop f.type.wireSize) with
      | .error e => .error e
      | .ok values => .ok (v :: values)

namespace Message

/-- Writes a record until a value is refused: the bytes written and the refusal. -/
def write (m : Message) (record : Record) : Bytes × Option RecordError :=
  if record.length = m.fields.length then writeFields m.fields record
  else ([], some (.fieldCount m.fields.length record.length))

/-- The bytes of a record. -/
def encode (m : Message) (record : Record) : Except RecordError Bytes :=
  match m.write record with
  | (bytes, none) => .ok bytes
  | (_, some refusal) => .error refusal

/-- The record at the front of `bytes`. -/
def decode (m : Message) (bytes : Bytes) : Except RecordError Record :=
  if bytes.length < m.wireSize then .error (.truncated m.wireSize bytes.length)
  else readFields m.fields bytes

end Message

end CommandLink
