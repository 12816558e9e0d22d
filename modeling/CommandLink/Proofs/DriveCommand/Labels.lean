import CommandLink.Proofs.Packet.Acceptance
import CommandLink.Tool.PacketView

/-!
# The names under which drive commands arrive

A batch of drive commands is written by position: the three members of a command go into the fields
of the message type one after the other, and nothing looks at the names that the schema gives to these
fields. A receiver shows every value under the name of its field (`Packet.namedValues`).

* `encode_of_types`: the bytes of a batch depend on the types of the fields and not on their names.
* `decode_encodeCommands`: what is received of a command stands under the names of the schema in their
  order, so that every member is found under its own name if the schema has the names of the members.
* `not_forall_labelled`: not every schema has.
-/

namespace CommandLink

/-- The members of a command under their own names. -/
def DriveCommand.members (c : DriveCommand) : List (String × FieldValue) :=
  [("vx", .float c.vx.widen), ("omega", .float c.omega.widen),
    ("durationMs", .int (Int64.ofInt c.durationMs.toNat))]

/-- Under the name of every member of the command the record has this member, quantised as the field
with that name does. -/
def DriveCommand.LabelledIn (c : DriveCommand) (m : Message) (record : Record) : Prop :=
  ∀ member ∈ c.members, ∃ f ∈ m.fields, f.name = member.1 ∧
    (member.1, f.type.canonical member.2) ∈ Packet.namedValues m record

instance (c : DriveCommand) (m : Message) (record : Record) : Decidable (c.LabelledIn m record) :=
  inferInstanceAs (Decidable (∀ member ∈ c.members, ∃ f ∈ m.fields, f.name = member.1 ∧
    (member.1, f.type.canonical member.2) ∈ Packet.namedValues m record))

/-! ## Names do not matter to a sender -/

theorem writeFields_of_types {fields fields' : List Field} {record : Record} {bytes : Bytes}
    (htypes : fields'.map Field.type = fields.map Field.type)
    (hwrite : writeFields fields record = (bytes, none)) :
    writeFields fields' record = (bytes, none) := by
  induction fields generalizing fields' record bytes with
  | nil =>
    obtain rfl := List.map_eq_nil_iff.mp htypes
    exact hwrite
  | cons f fields ih =>
    obtain ⟨f', fields', rfl, htype, htypes⟩ := List.map_eq_cons_iff.mp htypes
    cases record with
    | nil => exact hwrite
    | cons v record =>
      obtain ⟨front, back, hfront, hback, rfl⟩ := writeFields_cons hwrite
      simp only [writeFields, htype, hfront, ih htypes hback]

/-- A record is written into fields of the same types in the same way. -/
theorem Message.encode_of_types {m m' : Message} {record : Record} {bytes : Bytes}
    (htypes : m'.fields.map Field.type = m.fields.map Field.type)
    (hencode : m.encode record = .ok bytes) : m'.encode record = .ok bytes := by
  obtain ⟨hlen, hwrite⟩ := encode_eq_ok.mp hencode
  have hfields := congrArg List.length htypes
  rw [List.length_map, List.length_map] at hfields
  exact encode_eq_ok.mpr ⟨hlen.trans hfields.symm, writeFields_of_types htypes hwrite⟩

namespace Packet

variable {s s' : Schema} {typeId : UInt16} {m m' : Message} {records : List Record} {flags : Flags}
  {bytes : Bytes}

/-- **The bytes of a batch depend on the types of the fields and not on their names.** -/
theorem encode_of_types (hversion : s'.version = s.version) (hm : s.message? typeId = some m)
    (hm' : s'.message? typeId = some m')
    (htypes : m'.fields.map Field.type = m.fields.map Field.type)
    (hencode : encode s typeId records flags = .ok bytes) :
    encode s' typeId records flags = .ok bytes := by
  obtain ⟨_, h, body, hknown, hcurrent, hflags, hcount, hbody, rfl⟩ := encode_eq_ok.mp hencode
  obtain rfl := Option.some.inj (hm.symm.trans hknown)
  obtain ⟨parts, hparts, rfl⟩ := encodeRecords_eq_ok.mp hbody
  have hbody' : encodeRecords m' records = .ok parts.flatten := encodeRecords_eq_ok.mpr
    ⟨parts, hparts.imp fun _ _ => Message.encode_of_types htypes, rfl⟩
  exact encode_eq_ok.mpr
    ⟨m', h, parts.flatten, hm', hcurrent.trans hversion.symm, hflags, hcount, hbody', rfl⟩

/-! ## What a receiver shows -/

/-- The records of an accepted batch have a value for every field. -/
theorem length_of_mem_records (hm : s.message? typeId = some m)
    (hencode : encode s typeId records flags = .ok bytes) :
    ∀ r ∈ records, r.length = m.fields.length := by
  obtain ⟨_, _, _, hknown, -, -, -, hbody, -⟩ := encode_eq_ok.mp hencode
  obtain rfl := Option.some.inj (hm.symm.trans hknown)
  intro r hr
  obtain ⟨_, hb⟩ := exists_encode_of_mem hbody hr
  exact (Message.encode_eq_ok.mp hb).1

/-- The records of a packet that was sent and accepted. -/
theorem records_of_decode {p : Packet} (hm : s.message? typeId = some m)
    (hencode : encode s typeId records flags = .ok bytes)
    (hdecode : decode s typeId bytes = .ok p) : p.records = records.map m.canonical := by
  have happend : append s typeId records flags [] = (.ok (), [] ++ bytes) :=
    append_eq_ok.mpr ⟨bytes, hencode, rfl⟩
  obtain ⟨_, header, body, hknown, hbody, hsame⟩ := decode_of_append happend
  obtain rfl := Option.some.inj (hm.symm.trans hknown)
  rcases exists_firstLost m records with hkept | ⟨i, f, hlost⟩
  · rw [decodeRecords_encodeRecords hbody hkept] at hsame
    cases hdecode.symm.trans hsame
    rfl
  · rw [decodeRecords_encodeRecords_lost hbody hlost] at hsame
    cases hdecode.symm.trans hsame

/-- A received record shows the quantised values under the names of the fields in their order. -/
theorem namedValues_canonical (m : Message) (record : Record) :
    namedValues m (m.canonical record) =
      List.zipWith (fun f v => (f.name, f.type.canonical v)) m.fields record := by
  unfold namedValues Message.canonical
  induction m.fields generalizing record with
  | nil => rfl
  | cons f fields ih =>
    cases record with
    | nil => rfl
    | cons v record => exact congrArg (_ :: ·) (ih record)

end Packet

namespace DriveCommand

variable {s : Schema} {m : Message} {commands : List DriveCommand} {flags : Flags} {bytes : Bytes}

/-- A message type with the names of the members shows every member under its own name. -/
theorem labelledIn_of_names (c : DriveCommand)
    (hnames : m.fields.map Field.name = message.fields.map Field.name) :
    c.LabelledIn m (m.canonical c.toRecord) := by
  obtain ⟨vx, rest, hfields, hvx, hrest⟩ := List.map_eq_cons_iff.mp hnames
  obtain ⟨omega, rest, rfl, homega, hrest⟩ := List.map_eq_cons_iff.mp hrest
  obtain ⟨ms, rest, rfl, hms, hrest⟩ := List.map_eq_cons_iff.mp hrest
  obtain rfl := List.map_eq_nil_iff.mp hrest
  unfold LabelledIn
  rw [Packet.namedValues_canonical, hfields, members]
  simp only [List.forall_mem_cons, toRecord, List.zipWith_cons_cons, hvx, homega, hms]
  refine ⟨⟨vx, ?_, hvx, ?_⟩, ⟨omega, ?_, homega, ?_⟩, ⟨ms, ?_, hms, ?_⟩, nofun⟩ <;> simp

/-- **Typed sends are positional.** If a batch of drive commands is accepted, then the message type has
three fields (unless the batch is empty), and in what a receiver accepts the members of every command
stand, quantised, under the names of these fields in the order in which the schema declares them. So
every member stands under its own name if the schema declares the names of the members, in this order.
The names themselves are not looked at: under a schema with the same field types the batch becomes the
same bytes, whatever the names are. -/
theorem decode_encodeCommands
    (hencode : Packet.encodeCommands s commands flags = .ok bytes) :
    ∃ m, s.message? typeId = some m ∧ (commands ≠ [] → m.fields.length = 3) ∧
      (∀ p, Packet.decode s typeId bytes = .ok p →
        List.Forall₂ (fun c r =>
          Packet.namedValues m r =
              List.zipWith (fun f v => (f.name, f.type.canonical v)) m.fields c.toRecord ∧
            (m.fields.map Field.name = message.fields.map Field.name → c.LabelledIn m r))
          commands p.records) ∧
      ∀ s' m', s'.version = s.version → s'.message? typeId = some m' →
        m'.fields.map Field.type = m.fields.map Field.type →
          Packet.encodeCommands s' commands flags = .ok bytes := by
  obtain ⟨m, -, -, hm, -⟩ := Packet.encode_eq_ok.mp hencode
  refine ⟨m, hm, fun hsome => ?_, fun p hdecode => ?_, fun s' m' hversion hm' htypes =>
    Packet.encode_of_types hversion hm hm' htypes hencode⟩
  · obtain ⟨c, rest, rfl⟩ := List.exists_cons_of_ne_nil hsome
    exact (Packet.length_of_mem_records hm hencode c.toRecord (List.mem_cons_self ..)).symm
  · rw [Packet.records_of_decode hm hencode hdecode, List.map_map, List.forall₂_map_right_iff,
      List.forall₂_same]
    exact fun c _ => ⟨Packet.namedValues_canonical m c.toRecord, c.labelledIn_of_names⟩

/-- Drive commands with the two rates in the other order. -/
def crossedMessage : Message :=
  ⟨typeId, "DriveCmd", [⟨"omega", .fixed32 scale⟩, ⟨"vx", .fixed32 scale⟩, ⟨"durationMs", .u16⟩]⟩

theorem crossed_wellFormed : Description.WellFormed ⟨[crossedMessage]⟩ :=
  (Description.violation?_eq_none_iff.1
    (by decide +kernel : Description.violation? .standard ⟨[crossedMessage]⟩ = none)).1

/-- A schema that declares them so. -/
def crossedSchema : Schema := ⟨.current, ⟨[crossedMessage]⟩, crossed_wellFormed⟩

/-- One metre a second straight on, for a second. -/
def straight : DriveCommand := ⟨Binary.ofInt 1, Binary.zero false, 1000⟩

/-- Its packet. -/
def straightPacket : Bytes :=
  [2, 4, 0, 0, 1, 0, 0, 39, 16, 0, 0, 0, 0, 3, 232, 182, 230, 44, 165]

theorem decode_encodeCommands_straight :
    Packet.encodeCommands .builtin [straight] .none = .ok straightPacket ∧
      (∃ p, Packet.decode .builtin typeId straightPacket = .ok p ∧
        List.Forall₂ (fun c r => c.LabelledIn message r) [straight] p.records) ∧
      Packet.encodeCommands crossedSchema [straight] .none = .ok straightPacket := by
  have hencode : Packet.encodeCommands .builtin [straight] .none = .ok straightPacket := by
    decide +kernel
  have haccepted : (Packet.decode .builtin typeId straightPacket).isOk = true := by decide +kernel
  obtain ⟨m, hm, -, hreceived, hrenamed⟩ := decode_encodeCommands hencode
  obtain rfl : m = message := (Option.some.inj hm).symm
  refine ⟨hencode, ?_, hrenamed crossedSchema crossedMessage rfl rfl rfl⟩
  cases hdecode : Packet.decode .builtin typeId straightPacket with
  | error cause =>
    rw [hdecode] at haccepted
    cases haccepted
  | ok p => exact ⟨p, rfl, (hreceived p hdecode).imp fun _ _ h => h.2 rfl⟩

/-- Not every schema under which a batch of drive commands is accepted shows the members under their
own names. -/
theorem not_forall_labelled :
    ¬ ∀ (s : Schema) (m : Message) (commands : List DriveCommand) (flags : Flags) (bytes : Bytes)
      (p : Packet), s.message? typeId = some m →
        Packet.encodeCommands s commands flags = .ok bytes → Packet.decode s typeId bytes = .ok p →
          List.Forall₂ (fun c r => c.LabelledIn m r) commands p.records := by
  intro hall
  have hencode : Packet.encodeCommands crossedSchema [straight] .none = .ok straightPacket := by
    decide +kernel
  have hdecode : Packet.decode crossedSchema typeId straightPacket =
      .ok ⟨⟨.current, .none, 1⟩, typeId,
        [[.float (Binary.ofInt 1), .float (Binary.zero false), .int 1000]]⟩ := by
    decide +kernel
  have hcrossed : ¬ straight.LabelledIn crossedMessage
      [.float (Binary.ofInt 1), .float (Binary.zero false), .int 1000] := by
    decide +kernel
  have hlabelled := hall crossedSchema crossedMessage [straight] .none straightPacket _ rfl hencode
    hdecode
  cases hlabelled with
  | cons hfirst _ => exact hcrossed hfirst

end DriveCommand

end CommandLink
