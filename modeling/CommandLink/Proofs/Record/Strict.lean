import CommandLink.Packet.Codec
import CommandLink.Proofs.Record.Placement

/-!
# Records, read with every access checked

A reader that is written for speed takes slices, splits and differences that are only meant where they
exist. Here each of them is checked: an access outside of the bytes it is made on leaves the whole
computation without an outcome (`Strict`), so that a reader stays inside its bytes if it always has one.

* **Accesses** (`slice`, `split`, `difference`, `chunks`, `overwrite`), and where each of them exists.
* `Strict.readFields_eq`: with as many bytes as its fields have, a reader that takes the bytes of one
  field after another off the front never lacks any.
* `Strict.decodeRecord_eq`: so a record is read as by `Message.decode`, and all of its bytes are taken.
-/

namespace CommandLink

/-- A computation with bytes that has no outcome if it reaches outside of them. An outcome is a result
or an error. -/
abbrev Strict (ε α : Type) := ExceptT ε Option α

namespace Strict

variable {ε α β : Type} {bytes : Bytes}

/-! ## Accesses -/

/-- The bytes from `low` up to `high`. -/
def slice (bytes : Bytes) (low high : Nat) : Option Bytes :=
  if low ≤ high ∧ high ≤ bytes.length then some ((bytes.take high).drop low) else none

/-- The bytes before a place and those from it on. -/
def split (bytes : Bytes) (place : Nat) : Option (Bytes × Bytes) :=
  if place ≤ bytes.length then some (bytes.take place, bytes.drop place) else none

/-- A difference of sizes, which is not below zero. -/
def difference (a b : Nat) : Option Nat := if b ≤ a then some (a - b) else none

/-- The pieces of `size` bytes, without what is left over. There are none of no bytes. -/
def chunks (size : Nat) (bytes : Bytes) : Option (List Bytes) :=
  if size = 0 then none else some (Packet.pieces size (bytes.length / size) bytes)

/-- The bytes with those from `low` up to `high` replaced by as many others. -/
def overwrite (bytes : Bytes) (low high : Nat) (source : Bytes) : Option Bytes :=
  if low ≤ high ∧ high ≤ bytes.length ∧ source.length = high - low then
    some (bytes.take low ++ source ++ bytes.drop high)
  else none

theorem slice_eq {low high : Nat} (horder : low ≤ high) (hend : high ≤ bytes.length) :
    slice bytes low high = some ((bytes.take high).drop low) := if_pos ⟨horder, hend⟩

theorem split_eq {place : Nat} (hplace : place ≤ bytes.length) :
    split bytes place = some (bytes.take place, bytes.drop place) := if_pos hplace

theorem difference_eq {a b : Nat} (hle : b ≤ a) : difference a b = some (a - b) := if_pos hle

theorem chunks_eq {size : Nat} (hsize : 0 < size) (bytes : Bytes) :
    chunks size bytes = some (Packet.pieces size (bytes.length / size) bytes) :=
  if_neg (Nat.ne_of_gt hsize)

theorem overwrite_eq {low high : Nat} {source : Bytes} (horder : low ≤ high)
    (hend : high ≤ bytes.length) (hsource : source.length = high - low) :
    overwrite bytes low high source = some (bytes.take low ++ source ++ bytes.drop high) :=
  if_pos ⟨horder, hend, hsource⟩

/-! ## Outcomes -/

/-- A computation that has this outcome. -/
def verdict (outcome : Except ε α) : Strict ε α := ExceptT.mk (some outcome)

@[simp] theorem access_bind (a : α) (f : α → Strict ε β) :
    (liftM (some a) : Strict ε α) >>= f = f a := rfl

@[simp] theorem verdict_ok_bind (a : α) (f : α → Strict ε β) : verdict (.ok a) >>= f = f a := rfl

/-- A loop has an outcome if each of its steps has one. -/
theorem mapM_verdict (f : α → Except ε β) (l : List α) :
    l.mapM (fun a => verdict (f a)) = verdict (l.mapM f) := by
  induction l with
  | nil => rfl
  | cons a l ih =>
    rw [List.mapM_cons, List.mapM_cons, ih]
    cases f a with
    | error e => rfl
    | ok b => cases l.mapM f <;> rfl

/-! ## Fields -/

/-- How many bytes are taken off the front for a value of each type. -/
def width : FieldType → Nat
  | .u8 => 1
  | .i8 => 1
  | .u16 => 2
  | .i16 => 2
  | .u32 => 4
  | .i32 => 4
  | .bool => 1
  | .f32 => 4
  | .fixed32 _ => 4

theorem width_eq (type : FieldType) : width type = type.wireSize := by cases type <;> rfl

/-- Reads the value of a field off the front: the value and what is left. -/
def readField (f : Field) (bytes : Bytes) : Strict RecordError (FieldValue × Bytes) := do
  let (front, rest) ← split bytes (width f.type)
  match f.type.decode front with
  | .error fault => throw (.field f.name fault)
  | .ok v => return (v, rest)

/-- Reads one value for each field off the front: the values and what is left. -/
def readFields : List Field → Bytes → Strict RecordError (Record × Bytes)
  | [], bytes => return ([], bytes)
  | f :: fields, bytes => do
    let (v, rest) ← readField f bytes
    let (values, rest) ← readFields fields rest
    return (v :: values, rest)

/-- Reads a record from the bytes that it has at the front: the record, and what is left of these. -/
def decodeRecord (m : Message) (bytes : Bytes) : Strict RecordError (Record × Bytes) :=
  if bytes.length < m.wireSize then throw (.truncated m.wireSize bytes.length)
  else do
    let front ← slice bytes 0 m.wireSize
    readFields m.fields front

theorem readField_eq {f : Field} (henough : f.type.wireSize ≤ bytes.length) :
    readField f bytes =
      match f.type.decode (bytes.take f.type.wireSize) with
      | .error fault => verdict (.error (.field f.name fault))
      | .ok v => verdict (.ok (v, bytes.drop f.type.wireSize)) := by
  unfold readField
  simp only [width_eq, split_eq henough, access_bind]
  rfl

/-- **No field lacks bytes**, if there are as many as the fields have together. -/
theorem readFields_eq {fields : List Field} (henough : fieldsSize fields ≤ bytes.length) :
    readFields fields bytes = verdict ((CommandLink.readFields fields bytes).map fun record =>
      (record, bytes.drop (fieldsSize fields))) := by
  induction fields generalizing bytes with
  | nil => rfl
  | cons f fields ih =>
    rw [fieldsSize_cons] at henough
    have hleft : fieldsSize fields ≤ (bytes.drop f.type.wireSize).length := by
      rw [List.length_drop]
      omega
    have hrest := ih hleft
    rw [List.drop_drop] at hrest
    unfold readFields CommandLink.readFields
    rw [readField_eq (by omega), fieldsSize_cons]
    cases f.type.decode (bytes.take f.type.wireSize) with
    | error fault => rfl
    | ok v =>
      simp only [verdict_ok_bind, hrest]
      cases CommandLink.readFields fields (bytes.drop f.type.wireSize) <;> rfl

/-- **A record is read inside its bytes, and all of them are taken.** -/
theorem decodeRecord_eq (m : Message) (bytes : Bytes) :
    decodeRecord m bytes = verdict ((m.decode bytes).map fun record => (record, [])) := by
  unfold decodeRecord Message.decode
  split
  · rfl
  · rename_i henough
    have hlen : (bytes.take m.wireSize).length = m.wireSize := by
      rw [List.length_take]
      omega
    have hfields : fieldsSize m.fields ≤ (bytes.take m.wireSize).length := Nat.le_of_eq hlen.symm
    have hall : (bytes.take m.wireSize).drop (fieldsSize m.fields) = [] :=
      List.drop_of_length_le (Nat.le_of_eq hlen)
    have hread := readFields_eq hfields
    rw [hall] at hread
    have hfront : CommandLink.readFields m.fields (bytes.take m.wireSize) =
        CommandLink.readFields m.fields bytes := readFields_take m.fields bytes
    rw [slice_eq (Nat.zero_le _) (Nat.not_lt.mp henough), ← hfront]
    exact hread

end Strict

end CommandLink
