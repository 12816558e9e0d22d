import CommandLink.Proofs.Packet.Batch

/-!
# Packets written into a buffer

A packet is made on its own (`encode`) or written behind what a buffer holds (`append`), record after
record, and cut off again if one of them is refused.

* `writeRecords_accepted`, `writeRecords_refused`: what the loop over the records has written when it
  is through, and when it stops at a record.
* `append_eq`: what is appended is the packet made on its own, and a refused batch leaves the buffer as
  it was, however much of it had been written.
-/

namespace CommandLink

namespace Message

variable {m : Message} {record : Record}

theorem write_of_encode {bytes : Bytes} (hencode : m.encode record = .ok bytes) :
    m.write record = (bytes, none) := by
  unfold encode at hencode
  rcases hwrite : m.write record with ⟨written, _ | refusal⟩ <;> rw [hwrite] at hencode <;>
    cases hencode
  rfl

/-- A refused record may have been written in part. -/
theorem exists_write_of_refused {reason : RecordError} (hencode : m.encode record = .error reason) :
    ∃ part, m.write record = (part, some reason) := by
  unfold encode at hencode
  rcases hwrite : m.write record with ⟨written, _ | refusal⟩ <;> rw [hwrite] at hencode <;>
    cases hencode
  exact ⟨written, rfl⟩

end Message

namespace Packet

variable {m : Message} {front : List Record} {parts : List Bytes}

/-- The loop over the records passes those that are accepted, and leaves their bytes behind. -/
theorem writeRecords_append (hparts : List.Forall₂ (fun r b => m.encode r = .ok b) front parts)
    (rest : List Record) (index : Nat) (done : List Bytes) :
    writeRecords m (front ++ rest) index done =
      writeRecords m rest (index + front.length) (parts.reverse ++ done) := by
  induction hparts generalizing index done with
  | nil => rfl
  | cons hencode _ ih =>
    rw [List.cons_append, writeRecords, Message.write_of_encode hencode]
    simp only
    rw [ih, List.length_cons, Nat.add_right_comm, Nat.add_assoc, List.reverse_cons,
      List.append_assoc]
    rfl

/-- **A batch that is accepted** is written record after record. -/
theorem writeRecords_accepted {records : List Record}
    (hparts : List.Forall₂ (fun r b => m.encode r = .ok b) records parts) :
    writeRecords m records 0 [] = (parts, none) := by
  have hall := writeRecords_append hparts [] 0 []
  rw [List.append_nil, List.append_nil, writeRecords, List.reverse_reverse] at hall
  exact hall

/-- **A batch that is refused** is written up to the first record that is refused, and that one in
part. -/
theorem writeRecords_refused (hparts : List.Forall₂ (fun r b => m.encode r = .ok b) front parts)
    {record : Record} {part : Bytes} {reason : RecordError}
    (hwrite : m.write record = (part, some reason)) (rest : List Record) :
    writeRecords m (front ++ record :: rest) 0 [] =
      (parts ++ [part], some (.ofRecord front.length reason)) := by
  rw [writeRecords_append hparts, writeRecords, hwrite]
  simp

-- The first rate of the refused record has been written when the second one turns out to be no number.
example : writeRecords DriveCommand.message [[.int 2, .bool true, .int 500]] 0 [] =
    ([[0, 0, 78, 32]],
      some (.invalidRecord 0 (.field "omega" (.kindMismatch .numeric)))) := by decide +kernel

/-- Records that are all accepted have their bytes. -/
theorem exists_parts (haccepted : ∀ r ∈ front, ∃ b, m.encode r = .ok b) :
    ∃ parts, List.Forall₂ (fun r b => m.encode r = .ok b) front parts := by
  induction front with
  | nil => exact ⟨[], .nil⟩
  | cons r front ih =>
    obtain ⟨⟨b, hb⟩, hrest⟩ := List.forall_mem_cons.mp haccepted
    obtain ⟨parts, hparts⟩ := ih hrest
    exact ⟨b :: parts, .cons hb hparts⟩

/-- The loop over the records goes as the encoding of the batch does. -/
theorem writeRecords_account (m : Message) (records : List Record) :
    match encodeRecords m records with
    | .ok body => ∃ parts, body = parts.flatten ∧ writeRecords m records 0 [] = (parts, none)
    | .error cause => ∃ parts, writeRecords m records 0 [] = (parts, some cause) := by
  cases hbody : encodeRecords m records with
  | ok body =>
    obtain ⟨parts, hparts, rfl⟩ := encodeRecords_eq_ok.mp hbody
    exact ⟨parts, rfl, writeRecords_accepted hparts⟩
  | error cause =>
    obtain ⟨i, r, reason, hr, hrefused, rfl, hfirst⟩ := encodeRecords_eq_error.mp hbody
    obtain ⟨hi, rfl⟩ := List.getElem?_eq_some_iff.mp hr
    obtain ⟨part, hpart⟩ := Message.exists_write_of_refused hrefused
    have hfront : ∀ q ∈ records.take i, ∃ b, m.encode q = .ok b := by
      intro q hq
      obtain ⟨j, hj, rfl⟩ := List.mem_take_iff_getElem.mp hq
      exact hfirst j _ (by omega) (List.getElem?_eq_getElem _)
    obtain ⟨parts, hparts⟩ := exists_parts hfront
    have hwritten := writeRecords_refused hparts hpart (records.drop (i + 1))
    rw [List.length_take, Nat.min_eq_left hi.le, ← List.drop_eq_getElem_cons hi,
      List.take_append_drop] at hwritten
    exact ⟨_, hwritten⟩

/-- **Appending is encoding**: the packet stands behind what the buffer holds, and its checksum covers
nothing else. A refused batch leaves the buffer as it was. -/
theorem append_eq (s : Schema) (typeId : UInt16) (records : List Record) (flags : Flags)
    (buffer : Bytes) : append s typeId records flags buffer =
      match encode s typeId records flags with
      | .ok bytes => (.ok (), buffer ++ bytes)
      | .error e => (.error e, buffer) := by
  unfold append encode
  cases s.message? typeId with
  | none => rfl
  | some m =>
    simp only
    split
    · rfl
    have haccount := writeRecords_account m records
    cases hbody : encodeRecords m records with
    | ok body =>
      rw [hbody] at haccount
      obtain ⟨parts, rfl, hwritten⟩ := haccount
      rw [hwritten]
      simp only [Except.map, withChecksum, List.append_assoc, List.drop_left]
    | error cause =>
      rw [hbody] at haccount
      obtain ⟨parts, hwritten⟩ := haccount
      rw [hwritten]
      simp only [Except.map, List.append_assoc, List.take_left]

end Packet

end CommandLink
