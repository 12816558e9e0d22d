import CommandLink.Proofs.Packet.Frame
import CommandLink.Proofs.Schema.Registry

/-!
# Packets there and back

The two round trips of a packet, from those of its records and the shape of its frame.

* `decode_append`: a receiver gets the batch that was sent in its canonical form, or refuses it for
  the first record of which a fixed-point field is lost.
* `append_decode`: a relay that sends a packet again sends the bytes that it received, so that two
  byte strings are never the same packet.
-/

namespace CommandLink

/-- Whether the field delivers every value that it accepts as it is. -/
def FieldType.isExact : FieldType → Bool
  | .f32 | .fixed32 _ => false
  | _ => true

/-- Integers and truth values are delivered as they are. -/
theorem FieldType.canonical_of_isExact {type : FieldType} (h : type.isExact = true)
    (value : FieldValue) : type.canonical value = value := by
  cases type <;> first | rfl | cases h

/-- Exact fields of a record are delivered as they are. -/
theorem Message.getElem?_canonical {m : Message} {record : Record}
    (hlen : record.length = m.fields.length) {k : Nat} {f : Field} (hf : m.fields[k]? = some f)
    (hexact : f.type.isExact = true) : (m.canonical record)[k]? = record[k]? := by
  obtain ⟨hk, -⟩ := List.getElem?_eq_some_iff.mp hf
  unfold Message.canonical
  rw [List.getElem?_zipWith, hf, List.getElem?_eq_getElem (hlen ▸ hk)]
  exact congrArg some (FieldType.canonical_of_isExact hexact _)

namespace Packet

variable {s : Schema} {typeId : UInt16} {records : List Record} {flags : Flags} {bytes : Bytes}

/-- **A receiver gets the batch that was sent**: the same version, flags and number of records, and
every record in its canonical form, in which integers and truth values are as they were. It refuses
the batch only for a fixed-point value that is not finite once read back, and then names the first
record that has one. -/
theorem decode_append (happend : append s typeId records flags [] = (.ok (), bytes)) :
    ∃ m count, s.message? typeId = some m ∧ UInt16.toNat count = records.length ∧
      (∀ r ∈ records, r.length = m.fields.length ∧
        ∀ (k : Nat) (f : Field), m.fields[k]? = some f → f.type.isExact = true →
          (m.canonical r)[k]? = r[k]?) ∧
      (((∀ r ∈ records, m.lostField? r = none) ∧
          decode s typeId bytes =
            .ok ⟨⟨s.version, flags, count⟩, typeId, records.map m.canonical⟩) ∨
        ∃ i f scale, FirstLost m records i f ∧ f ∈ m.fields ∧ f.type = .fixed32 scale ∧
          decode s typeId bytes = .error (.invalidRecord i (.field f.name .nonFinite))) := by
  obtain ⟨m, ⟨version, flags, count⟩, body, hm, rfl, rfl, hcount, hbody, hlen, rfl⟩ :=
    exists_frame_of_append happend
  simp only at hcount
  have hvalues : ∀ r ∈ records, r.length = m.fields.length := by
    intro r hr
    obtain ⟨b, hb⟩ := exists_encode_of_mem hbody hr
    exact (Message.encode_eq_ok.mp hb).1
  refine ⟨m, count, hm, hcount, fun r hr => ⟨hvalues r hr, fun k f hf hexact =>
    Message.getElem?_canonical (hvalues r hr) hf hexact⟩, ?_⟩
  have hdecode := decode_frame (h := ⟨s.version, flags, count⟩) hm hlen
    (Checksum.compute (Header.toBytes ⟨s.version, flags, count⟩ ++ body)) []
  rw [List.append_nil, if_neg (by simp), if_neg (by simp), if_neg (by simp), hcount] at hdecode
  rw [List.nil_append, hdecode]
  rcases exists_firstLost m records with hkept | ⟨i, f, hlost⟩
  · exact .inl ⟨hkept, by rw [decodeRecords_encodeRecords hbody hkept]; rfl⟩
  · obtain ⟨r, hr, hf⟩ := hlost.lost
    obtain ⟨b, hb⟩ := exists_encode_of_mem hbody (List.mem_of_getElem? hr)
    obtain ⟨hmem, scale, htype⟩ := Message.lostField?_eq_some hb hf
    refine .inr ⟨i, f, scale, hlost, hmem, htype, ?_⟩
    rw [decodeRecords_encodeRecords_lost hbody hlost]
    rfl

/-- One drive command. -/
def driveRecords : List Record := [[.int 2, .int (-1), .int 500]]

/-- Its packet, which clears the queue. -/
def drivePacket : Bytes :=
  [2, 4, 1, 0, 1, 0, 0, 78, 32, 255, 255, 216, 240, 1, 244, 82, 4, 91, 201]

theorem decode_append_drive :
    append .builtin DriveCommand.typeId driveRecords .clearQueue [] = (.ok (), drivePacket) ∧
      decode .builtin DriveCommand.typeId drivePacket =
        .ok ⟨⟨.current, .clearQueue, 1⟩, DriveCommand.typeId,
          [[.float (Binary.ofInt 2), .float (Binary.ofInt (-1)), .int 500]]⟩ := by
  have happend : append .builtin DriveCommand.typeId driveRecords .clearQueue [] =
      (.ok (), drivePacket) := by decide +kernel
  refine ⟨happend, ?_⟩
  obtain ⟨m, count, hm, hcount, -, ⟨-, hdecode⟩ | ⟨i, f, -, ⟨-, r, hr, hlost⟩, -⟩⟩ :=
    decode_append happend
  · obtain rfl : m = DriveCommand.message := (Option.some.inj hm).symm
    obtain rfl : count = 1 := UInt16.toNat_inj.mp hcount
    rw [hdecode]
    decide +kernel
  · obtain rfl : m = DriveCommand.message := (Option.some.inj hm).symm
    obtain rfl := List.mem_singleton.mp (List.mem_of_getElem? hr)
    have hkept : DriveCommand.message.lostField? [.int 2, .int (-1), .int 500] = none := by
      decide +kernel
    exact absurd (hkept.symm.trans hlost) nofun

/-- **A relay never changes a packet**: what was accepted is written as it was received, behind
whatever the buffer holds, and no other byte string is accepted as the same packet. -/
theorem append_decode {p : Packet} (hdecode : decode s typeId bytes = .ok p) :
    (∀ buffer, append s typeId p.records p.header.flags buffer = (.ok (), buffer ++ bytes)) ∧
      ∀ other, decode s typeId other = .ok p → other = bytes := by
  have hencode : ∀ bytes, decode s typeId bytes = .ok p →
      encode s typeId p.records p.header.flags = .ok bytes := by
    intro bytes hbytes
    obtain ⟨m, body, hm, -, hversion, hlen, hrecords, rfl⟩ := decode_eq_ok.mp hbytes
    obtain ⟨hcount, hbody⟩ :=
      encodeRecords_decodeRecords (Schema.wellFormed_of_message? hm) hlen hrecords
    exact encode_eq_ok.mpr ⟨m, p.header, body, hm, hversion, rfl, hcount.symm, hbody, rfl⟩
  refine ⟨fun buffer => append_eq_ok.mpr ⟨bytes, hencode bytes hdecode, rfl⟩,
    fun other hother => ?_⟩
  exact Except.ok.inj ((hencode other hother).symm.trans (hencode bytes hdecode))

theorem append_decode_drive : ∃ p, decode .builtin DriveCommand.typeId drivePacket = .ok p ∧
    (∀ buffer, append .builtin DriveCommand.typeId p.records p.header.flags buffer =
      (.ok (), buffer ++ drivePacket)) ∧
    ∀ other, decode .builtin DriveCommand.typeId other = .ok p → other = drivePacket := by
  have haccepted : (decode .builtin DriveCommand.typeId drivePacket).isOk = true := by
    decide +kernel
  cases hdecode : decode .builtin DriveCommand.typeId drivePacket with
  | error e =>
    rw [hdecode] at haccepted
    cases haccepted
  | ok p => exact ⟨p, rfl, append_decode hdecode⟩

end Packet

end CommandLink
