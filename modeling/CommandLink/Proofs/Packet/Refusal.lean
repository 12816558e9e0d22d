import CommandLink.Proofs.Packet.Frame
import CommandLink.Proofs.Record.Refusal

/-!
# Refused batches

What a sender refuses a batch for (`Refuses`): its message type, its size, and then the first record
that is refused, with the number of its values or the first of them that is refused.

* `encode_eq_error`: a batch is refused exactly for that, and with its error.
* `append_whole_or_nothing`: in a buffer a packet stands whole behind what the buffer holds, or there
  is nothing of it, and it does not depend on what the buffer holds.
-/

namespace CommandLink

namespace Packet

/-- The record `r` at `i` is refused, for this reason, and the records before it are accepted. -/
structure FirstRefused (m : Message) (records : List Record) (i : Nat) (r : Record)
    (reason : RecordError) : Prop where
  record : records[i]? = some r
  refused : m.encode r = .error reason
  before : ∀ j q, j < i → records[j]? = some q → ∃ bytes, m.encode q = .ok bytes

/-- What a batch is refused for, in the order of the checks. A value is refused as one of another kind
than its field asks for, or else as a number that the field cannot carry. -/
inductive Refuses (s : Schema) (typeId : UInt16) (records : List Record) : EncodeError → Prop where
  | messageType (unknown : s.message? typeId = none) :
      Refuses s typeId records (.unknownMessageType typeId)
  | size {m : Message} (known : s.message? typeId = some m) (large : 65535 < records.length) :
      Refuses s typeId records (.batchTooLarge records.length 65535)
  | count {m : Message} {i : Nat} {r : Record} {reason : RecordError}
      (known : s.message? typeId = some m) (small : records.length ≤ 65535)
      (first : FirstRefused m records i r reason) (other : r.length ≠ m.fields.length) :
      Refuses s typeId records (.invalidRecord i (.fieldCount m.fields.length r.length))
  | kind {m : Message} {i k : Nat} {r : Record} {reason : RecordError} {f : Field} {v : FieldValue}
      {fault : FieldFault} (known : s.message? typeId = some m) (small : records.length ≤ 65535)
      (first : FirstRefused m records i r reason) (number : r.length = m.fields.length)
      (field : FirstRefusedField m.fields r k f v fault) (other : ¬ v.IsOf f.type.kind) :
      Refuses s typeId records (.invalidRecord i (.field f.name (.kindMismatch f.type.kind)))
  | value {m : Message} {i k : Nat} {r : Record} {reason : RecordError} {f : Field} {v : FieldValue}
      {fault : FieldFault} (known : s.message? typeId = some m) (small : records.length ≤ 65535)
      (first : FirstRefused m records i r reason) (number : r.length = m.fields.length)
      (field : FirstRefusedField m.fields r k f v fault) (kind : v.IsOf f.type.kind) :
      Refuses s typeId records (.numericOverflow i f.name)

variable {s : Schema} {typeId : UInt16} {m : Message} {records : List Record} {flags : Flags}
  {e : EncodeError}

/-! ## The error of a refused record -/

theorem encodeRecords_eq_error_iff : encodeRecords m records = .error e ↔
    ∃ i r reason, FirstRefused m records i r reason ∧ e = .ofRecord i reason := by
  rw [encodeRecords_eq_error]
  constructor
  · rintro ⟨i, r, reason, hr, hrefused, he, hbefore⟩
    exact ⟨i, r, reason, ⟨hr, hrefused, hbefore⟩, he⟩
  · rintro ⟨i, r, reason, ⟨hr, hrefused, hbefore⟩, he⟩
    exact ⟨i, r, reason, hr, hrefused, he, hbefore⟩

theorem ofRecord_of_overflow {name : String} {fault : FieldFault}
    (hoverflow : fault.isNumericOverflow = true) (i : Nat) :
    EncodeError.ofRecord i (.field name fault) = .numericOverflow i name :=
  if_pos hoverflow

/-- **The error of a refused record** says whether a number cannot be represented. -/
theorem refuses_of_firstRefused (hm : s.message? typeId = some m) (hsmall : records.length ≤ 65535)
    {i : Nat} {r : Record} {reason : RecordError} (hfirst : FirstRefused m records i r reason) :
    Refuses s typeId records (.ofRecord i reason) := by
  rcases Message.encode_eq_error.mp hfirst.refused with
    ⟨hother, rfl⟩ | ⟨hnumber, k, f, v, fault, hfield, rfl⟩
  · exact .count hm hsmall hfirst hother
  rcases FieldType.encode_eq_error hfield.refused with ⟨hother, rfl⟩ | ⟨hkind, hoverflow⟩
  · exact .kind hm hsmall hfirst hnumber hfield hother
  · rw [ofRecord_of_overflow hoverflow]
    exact .value hm hsmall hfirst hnumber hfield hkind

/-- The reason why a record is refused is the one of its first refused field. -/
theorem FirstRefused.reason_eq {i k : Nat} {r : Record} {reason : RecordError} {f : Field}
    {v : FieldValue} {fault : FieldFault} (hfirst : FirstRefused m records i r reason)
    (hnumber : r.length = m.fields.length) (hfield : FirstRefusedField m.fields r k f v fault) :
    reason = .field f.name fault := by
  have hrefused : m.encode r = .error (.field f.name fault) :=
    Message.encode_eq_error.mpr (.inr ⟨hnumber, k, f, v, fault, hfield, rfl⟩)
  cases hfirst.refused.symm.trans hrefused
  rfl

/-! ## The error of a batch -/

theorem refuses_of_encode (hrefused : encode s typeId records flags = .error e) :
    Refuses s typeId records e := by
  unfold encode at hrefused
  cases hm : s.message? typeId with
  | none =>
    rw [hm] at hrefused
    cases hrefused
    exact .messageType hm
  | some m =>
    rw [hm] at hrefused
    simp only at hrefused
    split at hrefused
    · rename_i hlarge
      cases hrefused
      exact .size hm hlarge
    rename_i hsmall
    cases hbody : encodeRecords m records with
    | ok body =>
      rw [hbody] at hrefused
      cases hrefused
    | error cause =>
      rw [hbody] at hrefused
      cases hrefused
      obtain ⟨i, r, reason, hfirst, rfl⟩ := encodeRecords_eq_error_iff.mp hbody
      exact refuses_of_firstRefused hm (Nat.not_lt.mp hsmall) hfirst

theorem encode_of_firstRefused (hm : s.message? typeId = some m) (hsmall : records.length ≤ 65535)
    {i : Nat} {r : Record} {reason : RecordError} (hfirst : FirstRefused m records i r reason) :
    encode s typeId records flags = .error (.ofRecord i reason) := by
  have hlimit : ¬ Header.maxCount < records.length := Nat.not_lt.mpr hsmall
  unfold encode
  rw [hm]
  simp only
  rw [if_neg hlimit, encodeRecords_eq_error_iff.mpr ⟨i, r, reason, hfirst, rfl⟩]
  rfl

theorem encode_of_refuses (hrefuses : Refuses s typeId records e) :
    encode s typeId records flags = .error e := by
  cases hrefuses with
  | messageType hm =>
    unfold encode
    rw [hm]
  | size hm hlarge =>
    unfold encode
    rw [hm]
    exact if_pos hlarge
  | count hm hsmall hfirst hother =>
    cases hfirst.refused.symm.trans (Message.encode_eq_error.mpr (.inl ⟨hother, rfl⟩))
    exact encode_of_firstRefused hm hsmall hfirst
  | kind hm hsmall hfirst hnumber hfield hother =>
    obtain rfl := hfirst.reason_eq hnumber hfield
    rcases FieldType.encode_eq_error hfield.refused with ⟨-, rfl⟩ | ⟨hkind, -⟩
    · exact encode_of_firstRefused hm hsmall hfirst
    · exact absurd hkind hother
  | value hm hsmall hfirst hnumber hfield hkind =>
    obtain rfl := hfirst.reason_eq hnumber hfield
    rcases FieldType.encode_eq_error hfield.refused with ⟨hother, -⟩ | ⟨-, hoverflow⟩
    · exact absurd hkind hother
    · rw [encode_of_firstRefused hm hsmall hfirst, ofRecord_of_overflow hoverflow]

/-- **A batch is refused for the first check that fails**, with its error, and for nothing else. -/
theorem encode_eq_error : encode s typeId records flags = .error e ↔ Refuses s typeId records e :=
  ⟨refuses_of_encode, encode_of_refuses⟩

/-! ## In a buffer -/

theorem length_of_encode {bytes : Bytes} (hencode : encode s typeId records flags = .ok bytes) :
    ∃ m, s.message? typeId = some m ∧ bytes.length = 9 + records.length * m.wireSize := by
  obtain ⟨m, h, body, hm, -, -, -, hbody, rfl⟩ := encode_eq_ok.mp hencode
  refine ⟨m, hm, ?_⟩
  rw [length_frame, length_of_encodeRecords hbody]
  simp only [Header.size, Checksum.size]
  omega

/-- **A packet is appended whole or not at all**, and what is appended does not depend on the buffer.

* When a batch is accepted, the buffer holds what it held before and then exactly the bytes that an
  empty buffer would hold: nine, and those of every record.
* When a batch is refused, the buffer is as it was, and the error is that of the first check that
  fails: the message type, the number of records, and then the first record that is refused, with the
  number of its values or the first value that its field refuses. -/
theorem append_whole_or_nothing (s : Schema) (typeId : UInt16) (records : List Record) (flags : Flags)
    (buffer : Bytes) :
    (∀ out, append s typeId records flags buffer = (.ok (), out) ↔
      ∃ bytes, append s typeId records flags [] = (.ok (), bytes) ∧ out = buffer ++ bytes) ∧
    (∀ bytes, append s typeId records flags [] = (.ok (), bytes) →
      ∃ m, s.message? typeId = some m ∧ bytes.length = 9 + records.length * m.wireSize) ∧
    ∀ e out, append s typeId records flags buffer = (.error e, out) ↔
      Refuses s typeId records e ∧ out = buffer := by
  refine ⟨fun out => ?_, fun bytes happend => ?_, fun e out => ?_⟩
  · rw [append_eq_ok]
    simp only [append_eq_ok, List.nil_append, exists_eq_right']
  · obtain ⟨_, hencode, rfl⟩ := append_eq_ok.mp happend
    exact length_of_encode hencode
  · rw [← encode_eq_error, append_eq]
    cases encode s typeId records flags with
    | ok bytes => simp
    | error cause => simp [eq_comm]

end Packet

end CommandLink
