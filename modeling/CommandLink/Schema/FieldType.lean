import CommandLink.FixedPoint

/-!
# Field types

The nine types a field of a record can have. Each has a fixed size on the wire, a name and a tag;
the tag enters the schema hash and never changes.
-/

namespace CommandLink

/-- The wire type of a record field. All types of more than one byte are big-endian. -/
inductive FieldType where
  | u8
  | i8
  | u16
  | i16
  | u32
  | i32
  | bool
  | f32
  /-- A number that travels as a 32-bit fixed-point integer. -/
  | fixed32 (scale : Binary64)
deriving DecidableEq, Repr

namespace FieldType

/-- Bytes that a field of this type occupies. -/
def wireSize : FieldType → Nat
  | u8 | i8 | bool => 1
  | u16 | i16 => 2
  | u32 | i32 | f32 | fixed32 _ => 4

/-- The short name of a type. -/
def name : FieldType → String
  | u8 => "u8"
  | i8 => "i8"
  | u16 => "u16"
  | i16 => "i16"
  | u32 => "u32"
  | i32 => "i32"
  | bool => "bool"
  | f32 => "f32"
  | fixed32 _ => "fixed32"

/-- The type's byte in the schema hash. -/
def tag : FieldType → UInt8
  | u8 => 1
  | i8 => 2
  | u16 => 3
  | i16 => 4
  | u32 => 5
  | i32 => 6
  | bool => 7
  | f32 => 8
  | fixed32 _ => 9

/-- The scale of a fixed-point type. -/
def scale? : FieldType → Option Binary64
  | fixed32 scale => some scale
  | _ => none

/-- A type as it appears in listings. -/
def text (type : FieldType) : String :=
  match type.scale? with
  | some scale => s!"{type.name}(scale={scale.text})"
  | none => type.name

theorem wireSize_pos (type : FieldType) : 0 < type.wireSize := by
  cases type <;> simp [wireSize]

theorem wireSize_le (type : FieldType) : type.wireSize ≤ 4 := by
  cases type <;> simp [wireSize]

end FieldType

end CommandLink
