import CommandLink.Schema.Description

/-!
# Record layouts

Where the bytes of each field are in a record: the fields follow one another without gaps, the first
at offset zero.
-/

namespace CommandLink

/-- A field and the offset of its bytes. -/
structure Placement where
  field : Field
  offset : Nat
deriving DecidableEq, Repr

/-- The offset behind a field. -/
def Placement.ending (p : Placement) : Nat := p.offset + p.field.type.wireSize

/-- Fields one after another, the first at `offset`. -/
def placementsFrom : (offset : Nat) → List Field → List Placement
  | _, [] => []
  | offset, f :: fields => ⟨f, offset⟩ :: placementsFrom (offset + f.type.wireSize) fields

/-- The fields of a message type with their places in a record. -/
def Message.placements (m : Message) : List Placement := placementsFrom 0 m.fields

theorem map_field_placementsFrom (offset : Nat) (fields : List Field) :
    (placementsFrom offset fields).map Placement.field = fields := by
  induction fields generalizing offset with
  | nil => rfl
  | cons f fields ih => simp [placementsFrom, ih]

end CommandLink
