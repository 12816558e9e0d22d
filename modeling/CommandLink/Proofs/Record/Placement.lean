import CommandLink.Proofs.Record.RoundTrip
import CommandLink.Schema.Layout

/-!
# Where the fields of a record are

A listing adds up offsets (`Message.placements`), a writer puts the bytes of one value behind those of
another, and a reader takes them off the front. All three come to the same places.

* `exists_placement_iff`, `pairwise_placementsFrom`: the ranges of the fields lie one behind the
  other and leave no gap.
* `Message.encode_at`: in the bytes of a record, the range of a field holds the bytes of its value.
* `Message.decode_at`: a field is read from the bytes in its range.
* `Message.decode_congr`: what is behind a record is not read.
-/

namespace CommandLink

/-- The `size` bytes from `offset` on. -/
def Bytes.range (bytes : Bytes) (offset size : Nat) : Bytes := (bytes.drop offset).take size

variable {m : Message} {f : Field} {fields : List Field} {record : Record} {bytes bytes' : Bytes}
  {p q : Placement} {v : FieldValue} {start i j k : Nat}

/-! ## Ranges -/

/-- The bytes that fields take up together. -/
def fieldsSize (fields : List Field) : Nat := fields.foldr (fun f size => f.type.wireSize + size) 0

theorem fieldsSize_cons (f : Field) (fields : List Field) :
    fieldsSize (f :: fields) = f.type.wireSize + fieldsSize fields := rfl

theorem le_offset (hp : p ∈ placementsFrom start fields) : start ≤ p.offset := by
  induction fields generalizing start with
  | nil => cases hp
  | cons f fields ih =>
    rw [placementsFrom] at hp
    rcases List.mem_cons.mp hp with rfl | hp
    · exact Nat.le_refl _
    · exact Nat.le_trans (Nat.le_add_right ..) (ih hp)

/-- **Each field ends where the next one begins, or before it.** -/
theorem pairwise_placementsFrom (start : Nat) (fields : List Field) :
    (placementsFrom start fields).Pairwise fun p q => p.ending ≤ q.offset := by
  induction fields generalizing start with
  | nil => exact .nil
  | cons f fields ih =>
    rw [placementsFrom]
    exact List.pairwise_cons.mpr ⟨fun q hq => le_offset hq, ih _⟩

/-- **Every offset up to the end is in the range of a field.** -/
theorem exists_placement_iff : (∃ p ∈ placementsFrom start fields, p.offset ≤ k ∧ k < p.ending) ↔
    start ≤ k ∧ k < start + fieldsSize fields := by
  induction fields generalizing start with
  | nil =>
    constructor
    · rintro ⟨p, hp, -⟩
      cases hp
    · intro ⟨hlow, hhigh⟩
      exact absurd hhigh (Nat.not_lt.mpr hlow)
  | cons f fields ih =>
    have hfirst : (Placement.mk f start).ending = start + f.type.wireSize := rfl
    simp only [placementsFrom, fieldsSize_cons, List.mem_cons, exists_eq_or_imp, ih, hfirst]
    omega

/-- The place of a field is listed under its index. -/
theorem field_of_placement (hp : (placementsFrom start fields)[i]? = some p) :
    fields[i]? = some p.field := by
  rw [← map_field_placementsFrom start fields, List.getElem?_map, hp]
  rfl

theorem exists_placement (hf : fields[i]? = some f) :
    ∃ p, (placementsFrom start fields)[i]? = some p ∧ p.field = f := by
  rw [← map_field_placementsFrom start fields, List.getElem?_map] at hf
  exact Option.map_eq_some_iff.mp hf

/-! ## Writing and reading -/

/-- What fields write from `start` on is the bytes of each value in the range of its field. -/
theorem encode_of_writeFields (hlen : record.length = fields.length)
    (hwrite : writeFields fields record = (bytes.drop start, none))
    (hp : (placementsFrom start fields)[i]? = some p) :
    ∃ v, record[i]? = some v ∧
      p.field.type.encode v = .ok (bytes.range p.offset p.field.type.wireSize) := by
  induction fields generalizing record start i with
  | nil => cases hp
  | cons f fields ih =>
    cases record with
    | nil => cases hlen
    | cons v record =>
      obtain ⟨front, back, hfront, hback, hbytes⟩ := writeFields_cons hwrite
      have hsize := FieldType.length_encode hfront
      cases i with
      | zero =>
        cases hp
        have hrange : bytes.range start f.type.wireSize = front := by
          rw [Bytes.range, hbytes, List.take_left' hsize]
        exact ⟨v, rfl, hrange ▸ hfront⟩
      | succ i =>
        have hrest : bytes.drop (start + f.type.wireSize) = back := by
          rw [← List.drop_drop, hbytes, List.drop_left' hsize]
        have hp : (placementsFrom (start + f.type.wireSize) fields)[i]? = some p := hp
        obtain ⟨w, hw, hencode⟩ := ih (Nat.succ.inj hlen) (hrest ▸ hback) hp
        exact ⟨w, hw, hencode⟩

/-- What fields read from `start` on is read from the range of each field. -/
theorem decode_of_readFields (hread : readFields fields (bytes.drop start) = .ok record)
    (hp : (placementsFrom start fields)[i]? = some p) :
    ∃ v, record[i]? = some v ∧
      p.field.type.decode (bytes.range p.offset p.field.type.wireSize) = .ok v := by
  induction fields generalizing record start i with
  | nil => cases hp
  | cons f fields ih =>
    simp only [readFields] at hread
    split at hread
    · cases hread
    · rename_i v hv
      split at hread
      · cases hread
      · rename_i values hvalues
        cases hread
        cases i with
        | zero =>
          cases hp
          exact ⟨v, rfl, hv⟩
        | succ i =>
          rw [List.drop_drop] at hvalues
          have hp : (placementsFrom (start + f.type.wireSize) fields)[i]? = some p := hp
          obtain ⟨w, hw, hdecode⟩ := ih hvalues hp
          exact ⟨w, hw, hdecode⟩

/-- Fields read no further than to their end. -/
theorem readFields_take (fields : List Field) (bytes : Bytes) :
    readFields fields (bytes.take (fieldsSize fields)) = readFields fields bytes := by
  induction fields generalizing bytes with
  | nil => rfl
  | cons f fields ih =>
    simp only [readFields]
    rw [fieldsSize_cons, List.take_take, Nat.min_eq_left (Nat.le_add_right ..), List.drop_take,
      Nat.add_sub_cancel_left, ih]

/-! ## Records -/

namespace Message

theorem field_of_placements (hp : m.placements[i]? = some p) : m.fields[i]? = some p.field :=
  field_of_placement hp

theorem exists_placements (hf : m.fields[i]? = some f) :
    ∃ p, m.placements[i]? = some p ∧ p.field = f := exists_placement hf

/-- The ranges of the fields cover a record, and nothing else. -/
theorem lt_wireSize_iff (m : Message) (k : Nat) :
    k < m.wireSize ↔ ∃ p ∈ m.placements, p.offset ≤ k ∧ k < p.ending := by
  have hcovered : (∃ p ∈ m.placements, p.offset ≤ k ∧ k < p.ending) ↔
      0 ≤ k ∧ k < 0 + m.wireSize := exists_placement_iff
  rw [hcovered, Nat.zero_add]
  exact ⟨fun hk => ⟨Nat.zero_le k, hk⟩, And.right⟩

/-- The ranges of the fields come in the order of the fields. -/
theorem ending_le_offset (hij : i < j) (hp : m.placements[i]? = some p)
    (hq : m.placements[j]? = some q) : p.ending ≤ q.offset := by
  obtain ⟨hi, rfl⟩ := List.getElem?_eq_some_iff.mp hp
  obtain ⟨hj, rfl⟩ := List.getElem?_eq_some_iff.mp hq
  exact List.pairwise_iff_getElem.mp (pairwise_placementsFrom 0 m.fields) i j hi hj hij

/-- **The range of a field holds the bytes of its value**, in the bytes of every accepted record. -/
theorem encode_at (hencode : m.encode record = .ok bytes) (hp : m.placements[i]? = some p) :
    ∃ v, record[i]? = some v ∧
      p.field.type.encode v = .ok (bytes.range p.offset p.field.type.wireSize) := by
  obtain ⟨hlen, hwrite⟩ := encode_eq_ok.mp hencode
  have hwrite : writeFields m.fields record = (bytes.drop 0, none) := hwrite
  exact encode_of_writeFields hlen hwrite hp

theorem decode_eq_ok : m.decode bytes = .ok record ↔
    m.wireSize ≤ bytes.length ∧ readFields m.fields bytes = .ok record := by
  unfold decode
  split
  · rename_i hshort
    simp [hshort]
  · rename_i henough
    simp [Nat.not_lt.mp henough]

/-- **A field is read from the bytes in its range**, in the bytes of every record that is read. -/
theorem decode_at (hdecode : m.decode bytes = .ok record) (hp : m.placements[i]? = some p) :
    ∃ v, record[i]? = some v ∧
      p.field.type.decode (bytes.range p.offset p.field.type.wireSize) = .ok v := by
  obtain ⟨-, hread⟩ := decode_eq_ok.mp hdecode
  have hread : readFields m.fields (bytes.drop 0) = .ok record := hread
  exact decode_of_readFields hread hp

/-- **What is behind a record is not read.** -/
theorem decode_congr (henough : m.wireSize ≤ bytes.length) (henough' : m.wireSize ≤ bytes'.length)
    (hfront : bytes.take m.wireSize = bytes'.take m.wireSize) : m.decode bytes = m.decode bytes' := by
  unfold decode
  rw [if_neg (Nat.not_lt.mpr henough), if_neg (Nat.not_lt.mpr henough'),
    ← readFields_take m.fields bytes, ← readFields_take m.fields bytes']
  exact congrArg (readFields m.fields) hfront

end Message

end CommandLink
