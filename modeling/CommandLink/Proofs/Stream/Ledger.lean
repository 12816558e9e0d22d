import CommandLink.Proofs.Stream.Account

/-!
# The ledger of a reader

Calls of any kind on one reader, one after the other (`Request`, `Reader.serve`), each with its
account: what it read off the stream, what it took off the bytes, and how both go with its reply
(`Call.Accounted`).

* `exists_ledger`: every list of requests to a new reader has a ledger, and after every call the bytes
  that the stream has handed out are the bytes taken so far and then those in the buffer.
-/

namespace CommandLink

namespace Reader

/-- What a reader is asked. -/
inductive Request where
  | packet
  | raw (limit : Nat)
  /-- Expect another message type from the next packet on. -/
  | expect (typeId : UInt16)
  /-- Start counting anew. -/
  | recount
deriving DecidableEq, Repr

/-- The message type that is expected after a request. -/
def Request.typeIdAfter (typeId : UInt16) : Request → UInt16
  | expect id => id
  | _ => typeId

/-- What a reader answers. -/
inductive Reply where
  | packet (result : Except FrameError Packet)
  | raw (result : Except FrameError Bytes)
  | done

/-- The answer to a request. -/
def serve (r : Reader) : Request → Reply × Reader
  | .packet => (.packet r.readPacket.1, r.readPacket.2)
  | .raw limit => (.raw (r.readRaw limit).1, (r.readRaw limit).2)
  | .expect typeId => (.done, r.setTypeId typeId)
  | .recount => (.done, r.resetStats)

/-- How a reply goes with what was read and taken for it. A packet, or the refusal of one, takes the
bytes of one whole packet, of which it is the verdict; raw bytes are what is taken; a call that fails
as the stream does takes nothing. -/
inductive Settled (s : Schema) (typeId : UInt16) : Reply → List ReadOutcome → Bytes → Prop where
  | packet {m : Message} {result : Except FrameError Packet} {reads : List ReadOutcome}
      {taken : Bytes} (known : s.message? typeId = some m) (steady : ReadOutcome.Steady reads)
      (whole : Packet.Whole m.wireSize taken)
      (verdict : result = (Packet.decode s typeId taken).mapError .decode) :
      Settled s typeId (.packet result) reads taken
  | noPacket {reads : List ReadOutcome} {cause : FrameError}
      (stops : ReadOutcome.Stops reads cause) : Settled s typeId (.packet (.error cause)) reads []
  | raw {reads : List ReadOutcome} {taken : Bytes} (steady : ReadOutcome.Steady reads) :
      Settled s typeId (.raw (.ok taken)) reads taken
  | noRaw {reads : List ReadOutcome} {cause : FrameError}
      (stops : ReadOutcome.Stops reads cause) : Settled s typeId (.raw (.error cause)) reads []
  | done : Settled s typeId .done [] []

/-- One call on a reader with its account. -/
structure Call where
  before : Reader
  request : Request
  reply : Reply
  /-- What the read calls answered that were made for it. -/
  reads : List ReadOutcome
  /-- The bytes that it took off the front. -/
  taken : Bytes
  after : Reader

/-- The account of a call is right. -/
structure Call.Accounted (s : Schema) (c : Call) : Prop where
  served : c.before.serve c.request = (c.reply, c.after)
  stream : c.before.stream.Reads c.reads c.after.stream
  balance : c.before.buffer ++ c.reads.flatMap ReadOutcome.bytes = c.taken ++ c.after.buffer
  typeId : c.after.typeId = c.request.typeIdAfter c.before.typeId
  settled : Settled s c.before.typeId c.reply c.reads c.taken
  /-- For a packet, one reads on only while the bytes at hand are an incomplete packet. -/
  needed : c.request = .packet → ∀ m, s.message? c.before.typeId = some m →
    ReadOutcome.Needed m.wireSize c.before.buffer c.reads

/-- Calls that follow each other, every one of them accounted for. -/
inductive Ledger (s : Schema) : Reader → List Call → Prop where
  | nil (r : Reader) : Ledger s r []
  | cons {c : Call} {calls : List Call} (call : c.Accounted s) (more : Ledger s c.after calls) :
      Ledger s c.before (c :: calls)

/-! ## One call -/

/-- A reader that never throws bytes away: the message type is known, the limit is not below that of
the count field, and the stream is not interrupted for ever. -/
structure Sound (s : Schema) (r : Reader) : Prop where
  schema : r.schema = s
  known : ∃ m, s.message? r.typeId = some m
  limit : Header.maxCount ≤ r.config.maxRecords
  responsive : r.stream.Responsive

variable {s : Schema} {r next : Reader}

theorem Sound.of_balanced {reads : List ReadOutcome} {taken : Bytes} (hsound : Sound s r)
    (hbalanced : Balanced r reads taken next) : Sound s next where
  schema := hbalanced.schema.trans hsound.schema
  known := by rw [hbalanced.typeId]; exact hsound.known
  limit := by rw [hbalanced.config]; exact hsound.limit
  responsive := hbalanced.stream.responsive hsound.responsive

/-- **Every call on a sound reader has an account**, and leaves the reader sound if it asks for a
known message type. -/
theorem exists_accounted (hsound : Sound s r) {request : Request}
    (hexpect : ∀ id, request = .expect id → ∃ m, s.message? id = some m) :
    ∃ c : Call, c.before = r ∧ c.request = request ∧ c.Accounted s ∧ Sound s c.after := by
  obtain ⟨m, hm⟩ := hsound.known
  obtain rfl := hsound.schema
  cases request with
  | packet =>
    rcases hread : r.readPacket with ⟨result, next⟩
    obtain ⟨reads, taken, hbalanced, htaken, hneeded⟩ :=
      readPacket_account hm hsound.limit hsound.responsive hread
    have hserved : r.serve .packet = (.packet result, next) := by rw [serve, hread]
    refine ⟨⟨r, .packet, .packet result, reads, taken, next⟩, rfl, rfl,
      ⟨hserved, hbalanced.stream, hbalanced.bytes, hbalanced.typeId, ?_, fun _ m' hm' => ?_⟩,
      hsound.of_balanced hbalanced⟩
    · cases htaken with
      | whole steady whole verdict => exact .packet hm steady whole verdict
      | none stops => exact .noPacket stops
    · obtain rfl : m = m' := Option.some.inj (hm.symm.trans hm')
      exact hneeded
  | raw limit =>
    rcases hread : r.readRaw limit with ⟨result, next⟩
    obtain ⟨reads, taken, hbalanced, htaken⟩ := readRaw_account hsound.responsive hread
    have hserved : r.serve (.raw limit) = (.raw result, next) := by rw [serve, hread]
    refine ⟨⟨r, .raw limit, .raw result, reads, taken, next⟩, rfl, rfl,
      ⟨hserved, hbalanced.stream, hbalanced.bytes, hbalanced.typeId, ?_, nofun⟩,
      hsound.of_balanced hbalanced⟩
    rcases htaken with ⟨rfl, hsteady, -⟩ | ⟨rfl, cause, rfl, hstops⟩
    · exact .raw hsteady
    · exact .noRaw hstops
  | expect id =>
    exact ⟨⟨r, .expect id, .done, [], [], r.setTypeId id⟩, rfl, rfl,
      ⟨rfl, .nil _, List.append_nil _, rfl, .done, nofun⟩,
      ⟨rfl, hexpect id rfl, hsound.limit, hsound.responsive⟩⟩
  | recount =>
    exact ⟨⟨r, .recount, .done, [], [], r.resetStats⟩, rfl, rfl,
      ⟨rfl, .nil _, List.append_nil _, rfl, .done, nofun⟩,
      ⟨rfl, ⟨m, hm⟩, hsound.limit, hsound.responsive⟩⟩

/-! ## Any number of calls -/

/-- Requests to a sound reader have a ledger. -/
theorem exists_ledger_of_sound (hsound : Sound s r) (requests : List Request)
    (hexpect : ∀ id, .expect id ∈ requests → ∃ m, s.message? id = some m) :
    ∃ calls, Ledger s r calls ∧ calls.map Call.request = requests := by
  induction requests generalizing r with
  | nil => exact ⟨[], .nil r, rfl⟩
  | cons request requests ih =>
    obtain ⟨c, rfl, rfl, haccounted, hafter⟩ :=
      exists_accounted hsound fun id h => hexpect id (h ▸ List.mem_cons_self ..)
    obtain ⟨calls, hledger, hrequests⟩ :=
      ih hafter fun id h => hexpect id (List.mem_cons_of_mem _ h)
    exact ⟨c :: calls, .cons haccounted hledger, by rw [List.map_cons, hrequests]⟩

/-- **The balance after every call**: the bytes handed out since the first call, behind those that
were in the buffer then, are the bytes taken since and then those in the buffer. -/
theorem Ledger.balance {calls front back : List Call} {c : Call} (hledger : Ledger s r calls)
    (hsplit : calls = front ++ c :: back) :
    r.stream.Reads ((front ++ [c]).flatMap Call.reads) c.after.stream ∧
      r.buffer ++ ((front ++ [c]).flatMap Call.reads).flatMap ReadOutcome.bytes =
        (front ++ [c]).flatMap Call.taken ++ c.after.buffer := by
  induction hledger generalizing front with
  | nil => simp at hsplit
  | @cons first calls call more ih =>
    cases front with
    | nil =>
      obtain ⟨rfl, -⟩ := List.cons.inj hsplit
      simpa using ⟨call.stream, call.balance⟩
    | cons first' front =>
      obtain ⟨rfl, hrest⟩ := List.cons.inj hsplit
      obtain ⟨hreads, hbytes⟩ := ih hrest
      simp only [List.cons_append, List.flatMap_cons]
      refine ⟨call.stream.append hreads, ?_⟩
      rw [List.flatMap_append, ← List.append_assoc, call.balance, List.append_assoc, hbytes,
        List.append_assoc]

/-- **A reader loses, duplicates and reorders nothing.** Whatever a new reader is asked, in whatever
pieces the bytes come and whatever read calls fail in between: there is an account of every call, and
after every call the bytes that the stream has handed out so far are the bytes that were taken, call
by call, and then those in the buffer. -/
theorem exists_ledger {script : ReadScript} {typeId : UInt16} {config : ChannelConfig}
    (hknown : ∃ m, s.message? typeId = some m) (hlimit : Header.maxCount ≤ config.maxRecords)
    (hresponsive : script.Responsive) (requests : List Request)
    (hexpect : ∀ id, .expect id ∈ requests → ∃ m, s.message? id = some m) :
    ∃ calls, Ledger s (.new script s typeId config) calls ∧ calls.map Call.request = requests ∧
      ∀ front c back, calls = front ++ c :: back →
        script.Reads ((front ++ [c]).flatMap Call.reads) c.after.stream ∧
        ((front ++ [c]).flatMap Call.reads).flatMap ReadOutcome.bytes =
          (front ++ [c]).flatMap Call.taken ++ c.after.buffer := by
  have hsound : Sound s (new script s typeId config) := ⟨rfl, hknown, hlimit, hresponsive⟩
  obtain ⟨calls, hledger, hrequests⟩ := exists_ledger_of_sound hsound requests hexpect
  exact ⟨calls, hledger, hrequests, fun front c back hsplit => hledger.balance hsplit⟩

/-- A packet of one drive command in two pieces with failures around them, and three more bytes. -/
def dribble : ReadScript :=
  ⟨[.deliver (Packet.drivePacket.take 7), .fail .interrupted, .fail .timedOut,
    .deliver (Packet.drivePacket.drop 7 ++ [7, 8, 9]), .fail .connectionReset], 0, ⟨false, []⟩⟩

theorem exists_ledger_drive :
    (∃ m, Schema.builtin.message? DriveCommand.typeId = some m) ∧ dribble.Responsive ∧
      ∃ calls, Ledger .builtin (.new dribble .builtin DriveCommand.typeId .standard) calls ∧
        calls.map Call.request = [.packet, .packet, .raw 2, .expect DriveCommand.typeId, .packet] ∧
        ∀ front c back, calls = front ++ c :: back →
          dribble.Reads ((front ++ [c]).flatMap Call.reads) c.after.stream ∧
          ((front ++ [c]).flatMap Call.reads).flatMap ReadOutcome.bytes =
            (front ++ [c]).flatMap Call.taken ++ c.after.buffer := by
  have hknown : ∃ m, Schema.builtin.message? DriveCommand.typeId = some m := ⟨_, rfl⟩
  have hresponsive : dribble.Responsive := by
    unfold ReadScript.Responsive
    decide
  refine ⟨hknown, hresponsive, exists_ledger hknown (Nat.le_refl _) hresponsive _ fun id hid => ?_⟩
  obtain rfl : id = DriveCommand.typeId := by simpa using hid
  exact hknown

end Reader

end CommandLink
