import CommandLink.Proofs.Record.Field
import CommandLink.Schema.WellFormed

/-!
# Records there and back

The field lemmas of `Proofs.Record.Field` along the fields of a message type.

* `Message.decode_encode`: the bytes of an accepted record are read back as its canonical form, or
  refused at its lost field (`Message.lostField?`), the first whose canonical value is not finite.
* `Message.encode_decode`: a record that was read is written as the bytes it was read from.
-/

namespace CommandLink

/-- The record that a receiver gets for a record that is accepted. -/
def Message.canonical (m : Message) (record : Record) : Record :=
  List.zipWith (fun f v => f.type.canonical v) m.fields record

/-- The first of the fields whose canonical value is not finite. -/
def lostFieldOf? : List Field → Record → Option Field
  | f :: fields, v :: values =>
    if (f.type.canonical v).isFinite then lostFieldOf? fields values else some f
  | _, _ => none

/-- The first field of a record whose canonical value is not finite. -/
def Message.lostField? (m : Message) (record : Record) : Option Field :=
  lostFieldOf? m.fields record

/-! ## Fields -/

variable {fields : List Field} {record : Record} {bytes : Bytes}

theorem writeFields_cons {f : Field} {v : FieldValue}
    (h : writeFields (f :: fields) (v :: record) = (bytes, none)) :
    ∃ front back, f.type.encode v = .ok front ∧ writeFields fields record = (back, none) ∧
      bytes = front ++ back := by
  simp only [writeFields] at h
  split at h
  · simp at h
  · rename_i front hfront
    obtain ⟨hbytes, hnone⟩ := Prod.mk.inj h
    exact ⟨front, _, hfront, Prod.ext rfl hnone, hbytes.symm⟩

theorem length_writeFields (hlen : record.length = fields.length)
    (h : writeFields fields record = (bytes, none)) :
    bytes.length = fields.foldr (fun f size => f.type.wireSize + size) 0 := by
  induction fields generalizing record bytes with
  | nil =>
    simp only [writeFields] at h
    rw [← (Prod.mk.inj h).1]
    rfl
  | cons f fields ih =>
    cases record with
    | nil => cases hlen
    | cons v record =>
      obtain ⟨front, back, hfront, hback, rfl⟩ := writeFields_cons h
      rw [List.length_append, FieldType.length_encode hfront,
        ih (Nat.succ.inj hlen) hback, List.foldr_cons]

theorem readFields_writeFields (hlen : record.length = fields.length)
    (h : writeFields fields record = (bytes, none)) : readFields fields bytes =
      match lostFieldOf? fields record with
      | none => .ok (List.zipWith (fun f v => f.type.canonical v) fields record)
      | some f => .error (.field f.name .nonFinite) := by
  induction fields generalizing record bytes with
  | nil => rfl
  | cons f fields ih =>
    cases record with
    | nil => cases hlen
    | cons v record =>
      obtain ⟨front, back, hfront, hback, rfl⟩ := writeFields_cons h
      have hsize := FieldType.length_encode hfront
      simp only [readFields]
      rw [List.take_left' hsize, List.drop_left' hsize, FieldType.decode_encode hfront,
        ih (Nat.succ.inj hlen) hback]
      by_cases hfin : (f.type.canonical v).isFinite = true
      · simp only [lostFieldOf?, hfin, ↓reduceIte, List.zipWith_cons_cons]
        cases lostFieldOf? fields record <;> rfl
      · simp only [lostFieldOf?, hfin, Bool.false_eq_true, ↓reduceIte]

theorem writeFields_readFields (hwf : ∀ f ∈ fields, f.WellFormed)
    (hlen : bytes.length = fields.foldr (fun f size => f.type.wireSize + size) 0)
    (h : readFields fields bytes = .ok record) :
    record.length = fields.length ∧ writeFields fields record = (bytes, none) := by
  induction fields generalizing record bytes with
  | nil =>
    cases h
    rw [List.length_eq_zero_iff.mp hlen]
    exact ⟨rfl, rfl⟩
  | cons f fields ih =>
    rw [List.foldr_cons] at hlen
    simp only [readFields] at h
    split at h
    · cases h
    · rename_i v hv
      split at h
      · cases h
      · rename_i values hvalues
        cases h
        have henc := FieldType.encode_decode (by rw [List.length_take]; omega)
          (hwf f (List.mem_cons_self ..)).scale hv
        obtain ⟨hl, hw⟩ := ih (fun g hg => hwf g (List.mem_cons_of_mem _ hg))
          (by rw [List.length_drop]; omega) hvalues
        refine ⟨congrArg Nat.succ hl, ?_⟩
        simp only [writeFields, henc, hw, List.take_append_drop]

/-- A lost field is a fixed-point field of the message type. -/
theorem lostFieldOf?_eq_some {f : Field} (hlost : lostFieldOf? fields record = some f)
    (h : writeFields fields record = (bytes, none)) :
    f ∈ fields ∧ ∃ scale, f.type = .fixed32 scale := by
  induction fields generalizing record bytes with
  | nil => cases hlost
  | cons g fields ih =>
    cases record with
    | nil => cases hlost
    | cons v record =>
      obtain ⟨front, back, hfront, hback, rfl⟩ := writeFields_cons h
      simp only [lostFieldOf?] at hlost
      split at hlost
      · obtain ⟨hmem, hscale⟩ := ih hlost hback
        exact ⟨List.mem_cons_of_mem _ hmem, hscale⟩
      · rename_i hfin
        cases hlost
        exact ⟨List.mem_cons_self .., FieldType.exists_scale_of_lost hfront (by simpa using hfin)⟩

/-! ## Records -/

namespace Message

variable {m : Message}

theorem encode_eq_ok : m.encode record = .ok bytes ↔
    record.length = m.fields.length ∧ writeFields m.fields record = (bytes, none) := by
  unfold encode write
  by_cases hlen : record.length = m.fields.length
  · rw [if_pos hlen]
    rcases writeFields m.fields record with ⟨front, _ | refusal⟩
    · simp [hlen]
    · simp
  · rw [if_neg hlen]
    simp [hlen]

theorem length_encode (h : m.encode record = .ok bytes) : bytes.length = m.wireSize :=
  length_writeFields (encode_eq_ok.mp h).1 (encode_eq_ok.mp h).2

/-- **An accepted record is read back in its canonical form**, unless a field of it is lost. -/
theorem decode_encode (h : m.encode record = .ok bytes) : m.decode bytes =
    match m.lostField? record with
    | none => .ok (m.canonical record)
    | some f => .error (.field f.name .nonFinite) := by
  obtain ⟨hlen, hw⟩ := encode_eq_ok.mp h
  unfold decode
  rw [if_neg (by rw [length_encode h]; omega)]
  exact readFields_writeFields hlen hw

/-- **A record that was read is written as the bytes it was read from.** -/
theorem encode_decode (hwf : m.WellFormed) (hlen : bytes.length = m.wireSize)
    (h : m.decode bytes = .ok record) : m.encode record = .ok bytes := by
  unfold decode at h
  rw [if_neg (by omega)] at h
  exact encode_eq_ok.mpr (writeFields_readFields hwf.fields hlen h)

/-- Only a fixed-point field can be lost. -/
theorem lostField?_eq_some {f : Field} (h : m.encode record = .ok bytes)
    (hlost : m.lostField? record = some f) : f ∈ m.fields ∧ ∃ scale, f.type = .fixed32 scale :=
  lostFieldOf?_eq_some hlost (encode_eq_ok.mp h).2

end Message

end CommandLink
