import CommandLink.Proofs.Packet.RoundTrip
import CommandLink.Proofs.Record.Json
import CommandLink.Proofs.Record.Placement
import CommandLink.Proofs.Tool.HexInput
import CommandLink.Tool.Run

/-!
# Decoded packets are printed in full

A record is printed as an object: the names of the fields are zipped with the values of the record,
and of equal names only the last one would be kept. Nothing gets lost on the way, for three reasons.

* `Message.holds_decode`: what is decoded has one value for each field, and each value is finite.
* `Packet.exists_shows`: the fields of a valid message type have different names, so the object of such
  a record has a member for each of them.
* `Packet.records_of_decode_eq_ok`: there are as many records as the header announces.

`Invocation.run_decode_json` puts this together for every run that prints a packet as JSON, and reads
the records back out of what is printed.
-/

namespace CommandLink

variable {m : Message} {record : Record} {bytes : Bytes}

/-! ## Decoded records -/

/-- The record has one value for each field, and each value is finite if it is a number. -/
structure Message.Holds (m : Message) (record : Record) : Prop where
  length_eq : record.length = m.fields.length
  finite : ∀ v ∈ record, v.isFinite = true

theorem holds_of_readFields {fields : List Field} (h : readFields fields bytes = .ok record) :
    record.length = fields.length ∧ ∀ v ∈ record, v.isFinite = true := by
  induction fields generalizing bytes record with
  | nil =>
    cases h
    exact ⟨rfl, List.forall_mem_nil _⟩
  | cons f fields ih =>
    simp only [readFields] at h
    split at h
    · cases h
    rename_i v hv
    split at h
    · cases h
    rename_i values hvalues
    cases h
    obtain ⟨hlen, hfin⟩ := ih hvalues
    exact ⟨congrArg (· + 1) hlen, List.forall_mem_cons.mpr ⟨FieldType.isFinite_decode hv, hfin⟩⟩

/-- **A decoded record has one value for each field.** -/
theorem Message.holds_decode (h : m.decode bytes = .ok record) : m.Holds record := by
  obtain ⟨hlen, hfin⟩ := holds_of_readFields (decode_eq_ok.mp h).2
  exact ⟨hlen, hfin⟩

/-! ## Printed records -/

theorem FieldValue.toJson_ne_null {v : FieldValue} (h : v.isFinite = true) : v.toJson ≠ .null := by
  intro hnull
  have hread := FieldValue.ofJson?_toJson h
  rw [hnull] at hread
  cases hread

/-- The record that an object in an array in an object stands for: the value of each field is the member
with its name. -/
def Message.recordIn? (m : Message) (j : Json) : Option Record :=
  (j.asFields? 2 (m.fields.map Field.name)).bind (·.mapM FieldValue.ofJson?)

namespace Packet

/-- The members show the record: one member for each field of the message type and no other, under the
name of the field, and it is the value of the record for that field and not `null`. -/
structure Shows (m : Message) (record : Record) (members : List (Option String × Json)) : Prop where
  length_eq : record.length = m.fields.length
  distinct : (members.map Prod.fst).Nodup
  keys : (members.map Prod.fst).Perm ((m.fields.map Field.name).map some)
  values : ∀ (i : Nat) (f : Field), m.fields[i]? = some f →
    ∃ v, record[i]? = some v ∧ Json.only? f.name members = some v.toJson ∧ v.toJson ≠ .null

theorem recordJson_eq (m : Message) (record : Record) : recordJson m record =
    .ofEntries ((m.fields.map Field.name).zip (record.map FieldValue.toJson)) := by
  rw [List.zip_map_right]
  rfl

section Record

variable (hnames : (m.fields.map Field.name).Nodup) (hrecord : m.Holds record)

include hrecord

theorem length_map_toJson :
    (record.map FieldValue.toJson).length = (m.fields.map Field.name).length := by
  rw [List.length_map, List.length_map, hrecord.length_eq]

theorem map_fst_entries : ((m.fields.map Field.name).zip (record.map FieldValue.toJson)).map Prod.fst =
    m.fields.map Field.name :=
  List.map_fst_zip (length_map_toJson hrecord).ge

include hnames

/-- The object of a record has the values of the record under the names of the fields, in some order. -/
theorem exists_recordJson : ∃ members, recordJson m record = .ofMembers members ∧
    members.Perm ((m.fields.map Field.name).zip (record.map FieldValue.toJson)) := by
  rw [recordJson_eq]
  exact Json.ofEntries_eq ((map_fst_entries hrecord).symm ▸ hnames)

/-- **The object of a record shows it.** -/
theorem exists_shows : ∃ members, recordJson m record = .object members ∧ Shows m record members := by
  obtain ⟨members, hjson, hperm⟩ := exists_recordJson hnames hrecord
  have hkeys : (members.map Prod.fst).Perm (m.fields.map Field.name) :=
    map_fst_entries hrecord ▸ hperm.map Prod.fst
  have hdistinct := Json.nodup_keys (hkeys.nodup_iff.mpr hnames)
  refine ⟨_, hjson, hrecord.length_eq, hdistinct, ?_, fun i f hf => ?_⟩
  · rw [Json.keys_eq]
    exact hkeys.map some
  · obtain ⟨hi, -⟩ := List.getElem?_eq_some_iff.mp hf
    obtain ⟨v, hv⟩ : ∃ v, record[i]? = some v :=
      ⟨_, List.getElem?_eq_getElem (hrecord.length_eq ▸ hi)⟩
    have hentry : ((m.fields.map Field.name).zip (record.map FieldValue.toJson))[i]? =
        some (f.name, v.toJson) := by
      rw [List.getElem?_zip_eq_some, List.getElem?_map, List.getElem?_map, hf, hv]
      exact ⟨rfl, rfl⟩
    have hmem := hperm.mem_iff.mpr (List.mem_of_getElem? hentry)
    refine ⟨v, hv, ?_, ?_⟩
    · exact Json.only?_eq_some hdistinct (List.mem_map.mpr ⟨_, hmem, rfl⟩)
    · exact FieldValue.toJson_ne_null (hrecord.finite v (List.mem_of_getElem? hv))

theorem isText_recordJson : (recordJson m record).IsText := by
  obtain ⟨members, hjson, hperm⟩ := exists_recordJson hnames hrecord
  rw [hjson, Json.isText_ofMembers]
  intro p hp
  obtain ⟨v, -, hv⟩ := List.mem_map.mp (List.of_mem_zip (hperm.mem_iff.mp hp)).2
  exact hv ▸ v.isText_toJson

/-- **A record is read back from its object.** -/
theorem recordIn?_recordJson : m.recordIn? (recordJson m record) = some record := by
  obtain ⟨members, hjson, hperm⟩ := exists_recordJson hnames hrecord
  have hvalues : ((m.fields.map Field.name).zip (record.map FieldValue.toJson)).map Prod.snd =
      record.map FieldValue.toJson := List.map_snd_zip (length_map_toJson hrecord).le
  have hdepth : 2 < Json.maxDepth := by decide
  have hread := Json.asFields?_of_perm hperm ((map_fst_entries hrecord).symm ▸ hnames) hdepth
  rw [map_fst_entries hrecord, hvalues] at hread
  rw [Message.recordIn?, hjson, hread, Option.bind_some]
  exact Json.mapM_eq_some fun v hv => FieldValue.ofJson?_toJson (hrecord.finite v hv)

end Record

/-- The objects of records show them, one by one. -/
theorem exists_objects {records : List Record} (hnames : (m.fields.map Field.name).Nodup)
    (hrecords : ∀ r ∈ records, m.Holds r) : ∃ objects : List (List (Option String × Json)),
      records.map (recordJson m) = objects.map .object ∧ List.Forall₂ (Shows m) records objects := by
  induction records with
  | nil => exact ⟨[], rfl, .nil⟩
  | cons r records ih =>
    obtain ⟨hr, hrecords⟩ := List.forall_mem_cons.mp hrecords
    obtain ⟨members, hjson, hshows⟩ := exists_shows hnames hr
    obtain ⟨objects, hobjects, hall⟩ := ih hrecords
    exact ⟨members :: objects, by rw [List.map_cons, List.map_cons, hjson, hobjects],
      .cons hshows hall⟩

/-! ## Printed packets -/

variable {s : Schema} {typeId : UInt16} {p : Packet}

/-- **A packet has as many records as its header announces**, each with one value for each field. -/
theorem records_of_decode_eq_ok (hm : s.message? typeId = some m)
    (hdecode : decode s typeId bytes = .ok p) :
    p.records.length = p.header.count.toNat ∧ ∀ r ∈ p.records, m.Holds r := by
  obtain ⟨_, body, hknown, -, -, -, hrecords, -⟩ := decode_eq_ok.mp hdecode
  obtain rfl := Option.some.inj (hm.symm.trans hknown)
  have hread := decodeRecords_eq_ok.mp hrecords
  refine ⟨by rw [← hread.length_eq, length_pieces], ?_⟩
  generalize pieces m.wireSize p.header.count.toNat body = parts at hread
  generalize p.records = records at hread
  induction hread with
  | nil => exact List.forall_mem_nil _
  | cons hr _ ih => exact List.forall_mem_cons.mpr ⟨Message.holds_decode hr, ih⟩

theorem isText_toJson (hnames : (m.fields.map Field.name).Nodup)
    (hrecords : ∀ r ∈ p.records, m.Holds r) : (p.toJson m).IsText := by
  have hitems : (Json.array (p.records.map (recordJson m))).IsText := by
    rw [Json.isText_array, List.forall_mem_map]
    exact fun r hr => isText_recordJson hnames (hrecords r hr)
  unfold toJson
  rw [Json.isText_ofMembers]
  simpa using hitems

/-- What is printed about a packet that is decoded. -/
theorem decodeReport_eq {packet : String} {format : OutputFormat} (hm : s.message? typeId = some m)
    (hbytes : HexInput.bytes packet = .ok bytes) (hdecode : decode s typeId bytes = .ok p) :
    decodeReport s typeId packet format = .ok (decodedView m p format) := by
  have hparse : HexInput.parse "packet" packet = .ok bytes := by
    rw [HexInput.parse, hbytes]
    rfl
  simp only [decodeReport, hparse, hm, hdecode, bind, Except.bind]

end Packet

namespace Invocation

/-- **Nothing of a packet is omitted in JSON.** Whatever schema the tool has loaded and whatever packet
it has decoded: it prints one line, an object whose `count` is the count of the header, and whose
`records` are so many objects, one for each record of the packet in their order. Each of them has
exactly one member for each field of the message type, which is the value of the record for that field
and never `null`. So the records are read back from what is printed. -/
theorem run_decode_json (i : Invocation) (standard : OutputFormat) (find : String → FileLookup)
    {packet : String} {typeId : UInt16} {s : Schema} {bytes : Bytes} {p : Packet}
    (hsubcommand : i.subcommand = .decode packet typeId)
    (hformat : i.settings.format.getD standard = .json) (hschema : i.loadSchema find = .ok s)
    (hbytes : HexInput.bytes packet = .ok bytes) (hdecode : Packet.decode s typeId bytes = .ok p) :
    ∃ m printed members, ∃ objects : List (List (Option String × Json)),
      s.message? typeId = some m ∧
      i.run standard find = ⟨ExitStatus.success, linesBytes [printed], ""⟩ ∧
      Json.parse? printed = some (.object members) ∧
      Json.only? "count" members = some (.ofInt p.header.count.toNat) ∧
      Json.only? "records" members = some (.array (objects.map .object)) ∧
      objects.length = p.header.count.toNat ∧
      List.Forall₂ (Packet.Shows m) p.records objects ∧
      (objects.map Json.object).mapM m.recordIn? = some p.records := by
  obtain ⟨m, hm⟩ := Packet.exists_message_of_decode hdecode
  have hnames := (Schema.wellFormed_of_message? hm).distinct
  obtain ⟨hcount, hrecords⟩ := Packet.records_of_decode_eq_ok hm hdecode
  obtain ⟨objects, hobjects, hshows⟩ := Packet.exists_objects hnames hrecords
  have hlength : objects.length = p.header.count.toNat := by rw [← hshows.length_eq, hcount]
  have hread : (objects.map Json.object).mapM m.recordIn? = some p.records := by
    rw [← hobjects]
    exact Json.mapM_eq_some fun r hr => Packet.recordIn?_recordJson hnames (hrecords r hr)
  have hrun : i.run standard find = ⟨ExitStatus.success, linesBytes [(p.toJson m).text], ""⟩ := by
    rw [run, hformat, print, hsubcommand]
    simp only [hschema]
    exact congrArg Report.ofResult (Packet.decodeReport_eq hm hbytes hdecode)
  have htext := Packet.isText_toJson hnames hrecords
  refine ⟨m, _, _, objects, hm, hrun, Json.parse?_text htext, ?_, ?_, hlength, hshows, hread⟩
  · exact Json.only?_eq_some (by simp) (by simp [hcount])
  · exact Json.only?_eq_some (by simp) (by simp [hobjects])

/-- The decoding of one drive command under the built-in schema. -/
def decodeDrive : Invocation :=
  ⟨.decode (Hex.spaced Packet.drivePacket) DriveCommand.typeId, ⟨some .json, none⟩⟩

/-- The keys of the object are in another order than the fields: `durationMs`, `omega`, `vx`. -/
theorem run_decode_json_drive : ∃ printed members, ∃ objects : List (List (Option String × Json)),
    decodeDrive.run .pretty (fun _ => .notRegular) =
      ⟨ExitStatus.success, linesBytes [printed], ""⟩ ∧
    Json.parse? printed = some (.object members) ∧
    Json.only? "count" members = some (.ofInt 1) ∧
    Json.only? "records" members = some (.array (objects.map .object)) ∧ objects.length = 1 ∧
    (objects.map Json.object).mapM DriveCommand.message.recordIn? =
      some [[.float (Binary.ofInt 2), .float (Binary.ofInt (-1)), .int 500]] := by
  have hdecode : Packet.decode .builtin DriveCommand.typeId Packet.drivePacket =
      .ok ⟨⟨.current, .clearQueue, 1⟩, DriveCommand.typeId,
        [[.float (Binary.ofInt 2), .float (Binary.ofInt (-1)), .int 500]]⟩ := by
    decide +kernel
  obtain ⟨m, printed, members, objects, hm, hrun, hparse, hcount, hrecords, hlength, -, hread⟩ :=
    run_decode_json decodeDrive .pretty (fun _ => .notRegular) rfl rfl rfl
      (HexInput.bytes_spaced Packet.drivePacket) hdecode
  obtain rfl : m = DriveCommand.message := (Option.some.inj hm).symm
  exact ⟨printed, members, objects, hrun, hparse, hcount, hrecords, hlength, hread⟩

end Invocation

end CommandLink
