import CommandLink.Proofs.FixedPoint.Range
import CommandLink.Proofs.Packet.RoundTrip

/-!
# Packets that are accepted on both sides

A sender checks the value, the scale and their product, a receiver the quotient. So a receiver can
refuse what a sender accepted, but only for a value of a fixed-point field that is lost
(`FixedPoint.Lost`), at the very ends of both ranges.

* `decode_append_iff`: when a receiver accepts what was sent, how it refuses it, and how extreme the
  value is then.
* `not_forall_accepted`: the largest scale with a lost value.
-/

namespace CommandLink

/-- The value is accepted by a fixed-point field that cannot deliver it. -/
def FieldType.Loses (type : FieldType) (value : FieldValue) : Prop :=
  ∃ scale x, type = .fixed32 scale ∧ value.asFloat? = some x ∧ FixedPoint.Lost x scale

/-- What is delivered for an accepted value is finite exactly if the value is not lost. -/
theorem FieldType.isFinite_canonical_iff {type : FieldType} {value : FieldValue} {bytes : Bytes}
    (h : type.encode value = .ok bytes) :
    (type.canonical value).isFinite = true ↔ ¬ type.Loses value := by
  constructor
  · rintro hfinite ⟨scale, x, rfl, hx, raw, hraw, hinfinite⟩
    rw [canonical_fixed32 hx hraw] at hfinite
    exact absurd (hinfinite.symm.trans hfinite) nofun
  · intro hkept
    by_contra hinfinite
    have hinfinite := Bool.eq_false_iff.mpr hinfinite
    obtain ⟨scale, rfl⟩ := exists_scale_of_lost h hinfinite
    obtain ⟨x, raw, hx, hraw, -⟩ := encode_fixed32_eq_ok h
    rw [canonical_fixed32 hx hraw] at hinfinite
    exact hkept ⟨scale, x, rfl, hx, raw, hraw, hinfinite⟩

theorem lostFieldOf?_eq_none_iff {fields : List Field} {record : Record} {bytes : Bytes}
    (h : writeFields fields record = (bytes, none)) :
    lostFieldOf? fields record = none ↔ ∀ p ∈ fields.zip record, ¬ p.1.type.Loses p.2 := by
  induction fields generalizing record bytes with
  | nil => exact ⟨fun _ => nofun, fun _ => rfl⟩
  | cons f fields ih =>
    cases record with
    | nil => exact ⟨fun _ => nofun, fun _ => rfl⟩
    | cons v record =>
      obtain ⟨front, back, hfront, hback, rfl⟩ := writeFields_cons h
      rw [List.zip_cons_cons, List.forall_mem_cons, ← ih hback,
        ← FieldType.isFinite_canonical_iff hfront]
      simp only [lostFieldOf?]
      split <;> simp_all

/-- A record of which no field is lost is one whose fields deliver every value. -/
theorem Message.lostField?_eq_none_iff {m : Message} {record : Record} {bytes : Bytes}
    (h : m.encode record = .ok bytes) :
    m.lostField? record = none ↔ ∀ p ∈ m.fields.zip record, ¬ p.1.type.Loses p.2 :=
  lostFieldOf?_eq_none_iff (encode_eq_ok.mp h).2

namespace Packet

variable {s : Schema} {typeId : UInt16} {records : List Record} {flags : Flags}
  {buffer bytes : Bytes}

/-- What a receiver makes of a packet is what it makes of the records. -/
theorem decode_of_append
    (happend : append s typeId records flags buffer = (.ok (), buffer ++ bytes)) :
    ∃ m header body, s.message? typeId = some m ∧ encodeRecords m records = .ok body ∧
      decode s typeId bytes = (decodeRecords m records.length body).map (⟨header, typeId, ·⟩) := by
  obtain ⟨m, header, body, hm, hversion, -, hcount, hbody, hlen, hbytes⟩ :=
    exists_frame_of_append happend
  have hdecode := decode_frame hm hlen (Checksum.compute (header.toBytes ++ body)) []
  rw [List.append_nil, if_neg (by simp), if_neg (by simp [hversion]), if_neg (by simp), hcount]
    at hdecode
  rw [List.append_cancel_left hbytes]
  exact ⟨m, header, body, hm, hbody, hdecode⟩

/-- A receiver accepts what was sent if no record has a lost value, and otherwise refuses it for the
first record that has one. -/
theorem decode_of_append_cases {m : Message} {header : Header} {body : Bytes}
    (hbody : encodeRecords m records = .ok body)
    (hdecode : decode s typeId bytes =
      (decodeRecords m records.length body).map (⟨header, typeId, ·⟩)) :
    ((∀ r ∈ records, ∀ p ∈ m.fields.zip r, ¬ p.1.type.Loses p.2) ∧
        ∃ p, decode s typeId bytes = .ok p) ∨
      (¬ ∀ r ∈ records, ∀ p ∈ m.fields.zip r, ¬ p.1.type.Loses p.2) ∧
        ∃ i f, FirstLost m records i f ∧
          decode s typeId bytes = .error (.invalidRecord i (.field f.name .nonFinite)) := by
  have hkept_iff (r : Record) (hr : r ∈ records) : m.lostField? r = none ↔
      ∀ p ∈ m.fields.zip r, ¬ p.1.type.Loses p.2 := by
    obtain ⟨b, hb⟩ := exists_encode_of_mem hbody hr
    exact Message.lostField?_eq_none_iff hb
  rcases exists_firstLost m records with hkept | ⟨i, f, hlost⟩
  · rw [decodeRecords_encodeRecords hbody hkept] at hdecode
    exact .inl ⟨fun r hr => (hkept_iff r hr).mp (hkept r hr), _, hdecode⟩
  · rw [decodeRecords_encodeRecords_lost hbody hlost] at hdecode
    refine .inr ⟨fun hkept => ?_, i, f, hlost, hdecode⟩
    obtain ⟨r, hr, hf⟩ := hlost.lost
    have hmem := List.mem_of_getElem? hr
    exact absurd (((hkept_iff r hmem).mpr (hkept r hmem)).symm.trans hf) nofun

/-- Which of the packets that a sender makes are accepted. -/
theorem exists_decode_iff {m : Message} (hm : s.message? typeId = some m)
    (happend : append s typeId records flags buffer = (.ok (), buffer ++ bytes)) :
    (∃ p, decode s typeId bytes = .ok p) ↔
      ∀ r ∈ records, ∀ v ∈ m.fields.zip r, ¬ v.1.type.Loses v.2 := by
  obtain ⟨m', header, body, hm', hbody, hdecode⟩ := decode_of_append happend
  obtain rfl : m' = m := Option.some.inj (hm'.symm.trans hm)
  rcases decode_of_append_cases hbody hdecode with ⟨hkept, haccepted⟩ | ⟨hlost, i, f, -, hrefused⟩
  · exact iff_of_true haccepted hkept
  · exact iff_of_false (fun ⟨p, hp⟩ => absurd (hrefused.symm.trans hp) nofun) hlost

/-- **What a sender accepts a receiver accepts**, unless a value is lost. Then the receiver refuses
the packet for the first record with a lost value; that value is at least `2 ^ 1022` and its scale
at most `2 ^ -993`. So no packet of a schema without such scales is refused. -/
theorem decode_append_iff
    (happend : append s typeId records flags buffer = (.ok (), buffer ++ bytes)) :
    ∃ m, s.message? typeId = some m ∧
      ((∃ p, decode s typeId bytes = .ok p) ↔
        ∀ r ∈ records, ∀ p ∈ m.fields.zip r, ¬ p.1.type.Loses p.2) ∧
      (∀ cause, decode s typeId bytes = .error cause → ∃ i f, FirstLost m records i f ∧
        cause = .invalidRecord i (.field f.name .nonFinite)) ∧
      (∀ f ∈ m.fields, ∀ value, f.type.Loses value → ∃ scale x, f.type = .fixed32 scale ∧
        value.asFloat? = some x ∧ scale.units ≤ 2 ^ 81 ∧
        FloatFormat.binary64.unitsPerOne * FloatFormat.binary64.unitsPerOne ≤ x.units * 2 ^ 52) ∧
      ((∀ f ∈ m.fields, ∀ scale, f.type = .fixed32 scale → 2 ^ 81 < scale.units) →
        ∃ p, decode s typeId bytes = .ok p) := by
  obtain ⟨m, header, body, hm, hbody, hdecode⟩ := decode_of_append happend
  have hcases := decode_of_append_cases hbody hdecode
  have hextreme (f : Field) (hf : f ∈ m.fields) (value : FieldValue) (hloses : f.type.Loses value) :
      ∃ scale x, f.type = .fixed32 scale ∧ value.asFloat? = some x ∧ scale.units ≤ 2 ^ 81 ∧
        FloatFormat.binary64.unitsPerOne * FloatFormat.binary64.unitsPerOne ≤ x.units * 2 ^ 52 := by
    obtain ⟨scale, x, htype, hx, hlost⟩ := hloses
    have hscale : FixedPoint.validScale scale = true :=
      ((Schema.wellFormed_of_message? hm).fields f hf).scale scale (by rw [htype]; rfl)
    exact ⟨scale, x, htype, hx, hlost.extreme hscale⟩
  refine ⟨m, hm, exists_decode_iff hm happend, fun cause hcause => ?_, hextreme, fun hscales => ?_⟩
  · rcases hcases with ⟨-, p, hp⟩ | ⟨-, i, f, hlost, herror⟩
    · exact absurd (hp.symm.trans hcause) nofun
    · exact ⟨i, f, hlost, Except.error.inj (hcause.symm.trans herror)⟩
  · refine (hcases.resolve_right fun h => h.1 fun r _ p hp hloses => ?_).2
    have hfield := (List.of_mem_zip hp).1
    obtain ⟨scale, -, htype, -, hsmall, -⟩ := hextreme p.1 hfield p.2 hloses
    exact absurd (hscales p.1 hfield scale htype) (Nat.not_lt.mpr hsmall)

/-- A message type with one fixed-point field, at the scale `2 ^ -993`. -/
def faintMessage : Message :=
  ⟨7, "Faint", [⟨"x", .fixed32 (Binary.ofBits .binary64 0x01E0000000000000)⟩]⟩

theorem faint_wellFormed : Description.WellFormed ⟨[faintMessage]⟩ :=
  (Description.violation?_eq_none_iff.1
    (by decide +kernel : Description.violation? .standard ⟨[faintMessage]⟩ = none)).1

/-- A schema with that message type. -/
def faintSchema : Schema := ⟨.current, ⟨[faintMessage]⟩, faint_wellFormed⟩

/-- The largest finite number, negated. Its product with the scale is rounded to `-2 ^ 31`. -/
def faintRecords : List Record := [[.float (Binary.ofBits .binary64 0xFFEFFFFFFFFFFFFF)]]

/-- Its packet. -/
def faintPacket : Bytes := [2, 4, 0, 0, 1, 128, 0, 0, 0, 156, 140, 173, 89]

theorem decode_append_iff_faint :
    append faintSchema 7 faintRecords .none [1] = (.ok (), [1] ++ faintPacket) ∧
      (¬ ∀ r ∈ faintRecords, ∀ p ∈ faintMessage.fields.zip r, ¬ p.1.type.Loses p.2) ∧
      ∃ i f, FirstLost faintMessage faintRecords i f ∧
        decode faintSchema 7 faintPacket = .error (.invalidRecord i (.field f.name .nonFinite)) := by
  have happend : append faintSchema 7 faintRecords .none [1] = (.ok (), [1] ++ faintPacket) := by
    decide +kernel
  have hrefused : (decode faintSchema 7 faintPacket).isOk = false := by decide +kernel
  obtain ⟨m, hm, hiff, herror, -⟩ := decode_append_iff happend
  obtain rfl : m = faintMessage := (Option.some.inj hm).symm
  cases hdecode : decode faintSchema 7 faintPacket with
  | ok p =>
    rw [hdecode] at hrefused
    cases hrefused
  | error cause =>
    obtain ⟨i, f, hlost, rfl⟩ := herror cause hdecode
    refine ⟨happend, fun hkept => ?_, i, f, hlost, rfl⟩
    obtain ⟨p, hp⟩ := hiff.mpr hkept
    exact absurd (hdecode.symm.trans hp) nofun

/-- Not every packet that a sender accepts is accepted by a receiver. -/
theorem not_forall_accepted :
    ¬ ∀ (s : Schema) (typeId : UInt16) (records : List Record) (flags : Flags) (bytes : Bytes),
      append s typeId records flags [] = (.ok (), bytes) → ∃ p, decode s typeId bytes = .ok p := by
  intro hall
  have hdecode : decode faintSchema 7 faintPacket =
      .error (.invalidRecord 0 (.field "x" .nonFinite)) := by decide +kernel
  obtain ⟨p, hp⟩ := hall faintSchema 7 faintRecords .none faintPacket (by decide +kernel)
  exact absurd (hdecode.symm.trans hp) nofun

end Packet

end CommandLink
