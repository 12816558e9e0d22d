import CommandLink.Proofs.Peer.Exchange

/-!
# Delivery over a session

One peer sends batches, and its bytes reach another peer in any pieces. What the second one has to
receive are the packets of the batches, one behind the other (`Supplied`): sending puts them behind the
own handshake, and the exchange of the other peer takes exactly that handshake off the front.

* `sendAll_ok`: the bytes of the batches that were accepted.
* `Supplied.receiveAll`: packets of several message types come off the front in order.
* `receiveAll_sendAll`: every batch is received once and in order, and then the peer is gone.
-/

namespace CommandLink

/-- Records of one message type with the flags of their packet. -/
structure Batch where
  typeId : UInt16
  records : List Record
  flags : Flags
deriving DecidableEq, Repr

/-- The packet of a batch. -/
def Batch.encode (b : Batch) (s : Schema) : Except EncodeError Bytes :=
  Packet.encode s b.typeId b.records b.flags

/-- What is received for a batch: its packet, decoded as if it had come alone. -/
def Batch.Received (s : Schema) (b : Batch) (result : Except PeerError Packet) : Prop :=
  ∃ p, b.encode s = .ok p ∧
    result = (Packet.decode s b.typeId p).mapError fun cause => .frame (.decode cause)

namespace Session

variable {s next : Session} {schema : Schema} {batches : List Batch} {packets : List Bytes}
  {p rest : Bytes} {id : UInt16} {m : Message}

/-! ## Sending -/

/-- Sends batches one after the other: the session behind the last, if all are accepted. -/
def sendAll (s : Session) : List Batch → Except PeerError Session
  | [] => .ok s
  | b :: batches =>
    match s.sendBatch b.typeId b.records b.flags with
    | (.ok (), next) => next.sendAll batches
    | (.error cause, _) => .error cause

/-- A batch that was accepted is on the stream as its packet. -/
theorem sendBatch_ok {b : Batch} (hsend : s.sendBatch b.typeId b.records b.flags = (.ok (), next)) :
    ∃ p, b.encode s.link.writer.schema = .ok p ∧
      next.link.writer.schema = s.link.writer.schema ∧
      next.link.writer.stream.accepted = s.link.writer.stream.accepted ++ p := by
  unfold sendBatch afterWrite at hsend
  rcases hwrite : s.link.writer.writePacket b.typeId b.records b.flags with ⟨_ | _, writer⟩
  · rw [hwrite] at hsend
    cases hsend
  · rw [hwrite] at hsend
    cases hsend
    exact Writer.exists_of_writePacket hwrite

/-- **Batches that were accepted are on the stream as their packets**, in order. -/
theorem sendAll_ok (hsend : s.sendAll batches = .ok next) : ∃ packets,
    List.Forall₂ (fun b p => b.encode s.link.writer.schema = .ok p) batches packets ∧
      next.link.writer.stream.accepted = s.link.writer.stream.accepted ++ packets.flatten := by
  induction batches generalizing s with
  | nil =>
    cases hsend
    exact ⟨[], .nil, (List.append_nil _).symm⟩
  | cons b batches ih =>
    rw [sendAll] at hsend
    rcases hbatch : s.sendBatch b.typeId b.records b.flags with ⟨_ | _, after⟩
    · rw [hbatch] at hsend
      cases hsend
    · rw [hbatch] at hsend
      obtain ⟨p, hp, hschema, haccepted⟩ := sendBatch_ok hbatch
      obtain ⟨packets, hpackets, hall⟩ := ih hsend
      rw [hschema] at hpackets
      refine ⟨p :: packets, .cons hp hpackets, ?_⟩
      rw [hall, haccepted, List.flatten_cons, List.append_assoc]

/-- A willing stream takes all batches that have packets and are not too large. -/
theorem exists_sendAll (hwilling : s.link.writer.stream.Willing)
    (hbatches : ∀ b ∈ batches, b.records.length ≤ s.link.writer.config.maxRecords ∧
      ∃ p, b.encode s.link.writer.schema = .ok p) : ∃ sent, s.sendAll batches = .ok sent := by
  induction batches generalizing s with
  | nil => exact ⟨s, rfl⟩
  | cons b batches ih =>
    obtain ⟨⟨hlimit, p, hp⟩, hothers⟩ := List.forall_mem_cons.mp hbatches
    obtain ⟨writer, hwrite, hafter, hschema, hconfig⟩ :=
      Writer.exists_writePacket hwilling hlimit hp
    rw [← hschema, ← hconfig] at hothers
    obtain ⟨sent, hsent⟩ := ih (s := { s with link := { s.link with writer } }) hafter hothers
    refine ⟨sent, ?_⟩
    rw [sendAll, sendBatch, hwrite]
    exact hsent

/-! ## Receiving -/

/-- Receives packets of the given message types, one after the other: what each call answers. -/
def receiveAll (s : Session) : List UInt16 → List (Except PeerError Packet) × Session
  | [] => ([], s)
  | id :: ids =>
    let (result, next) := s.receiveBatch id
    (result :: (next.receiveAll ids).1, (next.receiveAll ids).2)

/-- These bytes are to be received, and then the stream has ended. -/
structure Supplied (schema : Schema) (bytes : Bytes) (s : Session) : Prop where
  schema : s.link.reader.schema = schema
  limit : Header.maxCount ≤ s.link.reader.config.maxRecords
  responsive : s.link.reader.stream.Responsive
  outlook : s.link.reader.outlook IoErrorKind.isInterruption = ⟨bytes, .ended⟩

/-- The next packet is received with its own verdict and nothing else of what is to come. -/
theorem Supplied.receiveBatch (hsupplied : Supplied schema (p ++ rest) s)
    (hm : schema.message? id = some m) (hp : Packet.Whole m.wireSize p) :
    (s.receiveBatch id).1 =
        (Packet.decode schema id p).mapError (fun cause => .frame (.decode cause)) ∧
      Supplied schema rest (s.receiveBatch id).2 := by
  obtain ⟨rfl, hlimit, hresponsive, houtlook⟩ := hsupplied
  have hbytes : ((s.link.reader.setTypeId id).outlook IoErrorKind.isInterruption).bytes =
      p ++ rest := congrArg Outlook.bytes houtlook
  obtain ⟨hverdict, hyields⟩ :=
    Reader.readPacket_whole (r := s.link.reader.setTypeId id) hm hlimit hresponsive hp hbytes
  have hleft := hyields.bytes.symm.trans hbytes
  have hended := hyields.ending.symm.trans (congrArg Outlook.ending houtlook)
  refine ⟨?_, hyields.schema, ?_, hyields.responsive hresponsive, ?_⟩
  · unfold Session.receiveBatch
    simp only [hverdict]
    change ((Packet.decode s.link.reader.schema id p).mapError _).mapError _ = _
    cases Packet.decode s.link.reader.schema id p <;> rfl
  · have hconfig := hyields.config
    exact hconfig ▸ hlimit
  · exact congrArg₂ Outlook.mk (List.append_cancel_left hleft) hended

/-- Once everything has been received the peer is gone. -/
theorem Supplied.disconnected (hsupplied : Supplied schema [] s) (hm : schema.message? id = some m) :
    (s.receiveBatch id).1 = .error .disconnected := by
  obtain ⟨rfl, hlimit, hresponsive, houtlook⟩ := hsupplied
  have hbytes : ((s.link.reader.setTypeId id).outlook IoErrorKind.isInterruption).bytes = [] :=
    congrArg Outlook.bytes houtlook
  have hclosed := Reader.readPacket_closed (r := s.link.reader.setTypeId id) hm hlimit hresponsive
    (hbytes ▸ Packet.incomplete_nil) (congrArg Outlook.ending houtlook)
  unfold Session.receiveBatch
  simp only [hclosed]
  rfl

/-- **Packets are received in order**, each as its own message type. -/
theorem Supplied.receiveAll (hsupplied : Supplied schema packets.flatten s)
    (hpackets : List.Forall₂ (fun b p => b.encode schema = .ok p) batches packets) :
    List.Forall₂ (Batch.Received schema) batches (s.receiveAll (batches.map Batch.typeId)).1 ∧
      Supplied schema [] (s.receiveAll (batches.map Batch.typeId)).2 := by
  induction hpackets generalizing s with
  | nil => exact ⟨.nil, hsupplied⟩
  | @cons b p batches packets hp hothers ih =>
    obtain ⟨m, -, -, hm, -⟩ := Packet.encode_eq_ok.mp hp
    rw [List.flatten_cons] at hsupplied
    obtain ⟨hverdict, hafter⟩ := hsupplied.receiveBatch hm (Packet.whole_of_encode hm hp)
    obtain ⟨hreceived, hdone⟩ := ih hafter
    exact ⟨.cons ⟨p, hp, hverdict⟩ hreceived, hdone⟩

/-- The exchange takes the peer's handshake off the front of what is to be received. -/
theorem exists_supplied {l : Link} {bytes : Bytes} {clock : Clock} (hsame : l.reader.schema.hash = l.ours)
    (hanswer : l.writer.stream.answer Handshake.size = .ok ())
    (hlimit : Header.maxCount ≤ l.reader.config.maxRecords)
    (hresponsive : l.reader.stream.Responsive)
    (houtlook : l.reader.outlook IoErrorKind.isInterruption =
      ⟨Handshake.encode l.ours ++ bytes, .ended⟩) :
    ∃ s, l.exchange Link.standardTimeout clock = (some (.ok s), s.link) ∧
      Supplied l.reader.schema bytes s := by
  have hallowed := Link.standardTimeout_allowed clock
  have hsees := Negotiator.sees_of_ended (congrArg Outlook.ending houtlook)
  have hmatch : (l.reader.outlook IoErrorKind.isInterruption).bytes.take Handshake.size =
      Handshake.encode l.ours := by
    rw [houtlook]
    exact List.take_left' (Handshake.length_encode l.ours)
  obtain ⟨s, hexchange, -, hyields⟩ :=
    Link.exchange_matching hsame hanswer hallowed hsees hmatch
  have hleft := hyields.bytes
  have hended := hyields.ending
  rw [houtlook] at hleft hended
  refine ⟨s, hexchange, hyields.schema, ?_, hyields.responsive hresponsive, ?_⟩
  · rw [hyields.config]
    exact hlimit
  · exact congrArg₂ Outlook.mk (List.append_cancel_left hleft).symm hended.symm

/-! ## Both peers -/

/-- **End-to-end delivery.** A peer with a session sends batches, all of which are accepted, and what its
stream has taken since before the handshake reaches another peer with the same schema, in any pieces and
then with the end of the stream. If the other peer's own handshake is taken, it has a session, whatever
its clock shows; its calls, one for each batch with the message type of that batch, are answered with
what decoding gives on the packet of that batch; and then the peer is gone. -/
theorem receiveAll_sendAll {l link : Link} {timeout : Duration} {senderClock : Clock}
    {sender sent : Session} (hsender : l.exchange timeout senderClock = (some (.ok sender), link))
    (hsent : sender.sendAll batches = .ok sent)
    {pieces : List Bytes} (hpieces : ∀ piece ∈ pieces, piece ≠ [])
    (hbytes : sent.link.writer.stream.accepted = l.writer.stream.accepted ++ pieces.flatten)
    {script : ReadScript} (hscript : script.pending = pieces.map .deliver) (typeId : UInt16)
    {writer : Writer} (hschema : writer.schema = l.writer.schema)
    (hanswer : writer.stream.answer Handshake.size = .ok ()) (clock : Clock) :
    ∃ receiver, (Link.mk (.new script l.writer.schema typeId .standard) writer).exchange
        Link.standardTimeout clock = (some (.ok receiver), receiver.link) ∧
      List.Forall₂ (Batch.Received l.writer.schema) batches
        (receiver.receiveAll (batches.map Batch.typeId)).1 ∧
      ∀ id m, l.writer.schema.message? id = some m →
        ((receiver.receiveAll (batches.map Batch.typeId)).2.receiveBatch id).1 =
          .error .disconnected := by
  obtain ⟨-, -, rfl, hhello⟩ := Link.sent_of_exchange hsender
  obtain ⟨hsame, -, haccepted⟩ := Writer.accepted_of_writeRaw hhello
  obtain ⟨packets, hpackets, hall⟩ := sendAll_ok hsent
  rw [hsame] at hpackets
  have hflat : pieces.flatten = Handshake.encode l.ours ++ packets.flatten := by
    rw [hbytes, haccepted, List.append_assoc] at hall
    exact List.append_cancel_left hall
  have hours : (Link.mk (.new script l.writer.schema typeId .standard) writer).ours = l.ours :=
    congrArg Schema.hash hschema
  have hresponsive : script.Responsive := by
    unfold ReadScript.Responsive
    rw [hscript]
    simp
  obtain ⟨receiver, hexchange, hsupplied⟩ := exists_supplied
    (l := ⟨.new script l.writer.schema typeId .standard, writer⟩) hours.symm hanswer (Nat.le_refl _)
    hresponsive (by
      rw [hours, ← hflat]
      exact ReadScript.outlook_pieces hpieces hscript)
  obtain ⟨hreceived, hdone⟩ := hsupplied.receiveAll hpackets
  exact ⟨receiver, hexchange, hreceived, fun id m hm => hdone.disconnected hm⟩

/-- A batch of one drive command. -/
def driveBatch : Batch := ⟨DriveCommand.typeId, Packet.driveRecords, .clearQueue⟩

theorem encode_driveBatch : driveBatch.encode .builtin = .ok Packet.drivePacket := by
  decide +kernel

/-- A handshake and two packets in three pieces, cut in the middle of the handshake and of the first
packet. -/
def crumbs (hash : SchemaHash) : List Bytes :=
  [(Handshake.encode hash).take 5, (Handshake.encode hash).drop 5 ++ Packet.drivePacket.take 10,
    Packet.drivePacket.drop 10 ++ Packet.drivePacket]

theorem flatten_crumbs (hash : SchemaHash) : (crumbs hash).flatten =
    Handshake.encode hash ++ [Packet.drivePacket, Packet.drivePacket].flatten := by
  simp only [crumbs, List.flatten_cons, List.flatten_nil, List.append_nil, ← List.append_assoc]
  rw [List.take_append_drop, List.append_assoc _ (Packet.drivePacket.take 10),
    List.take_append_drop]

theorem ne_nil_of_mem_crumbs (hash : SchemaHash) : ∀ piece ∈ crumbs hash, piece ≠ [] := by
  simp only [crumbs, List.forall_mem_cons]
  exact ⟨nofun, nofun, nofun, nofun⟩

theorem receiveAll_sendAll_drive : ∃ (sender sent : Session) (hash : SchemaHash),
    Link.stuttering.exchange Link.standardTimeout .started = (some (.ok sender), sender.link) ∧
      sender.sendAll [driveBatch, driveBatch] = .ok sent ∧
      sent.link.writer.stream.accepted =
        Link.stuttering.writer.stream.accepted ++ (crumbs hash).flatten ∧
      ∃ receiver : Session, (Link.mk
          (.new ⟨(crumbs hash).map .deliver, 0, ⟨false, []⟩⟩ .builtin 7 .standard)
          ⟨Link.shortWrites, .builtin, .standard⟩).exchange Link.standardTimeout .started =
            (some (.ok receiver), receiver.link) ∧
        List.Forall₂ (Batch.Received .builtin) [driveBatch, driveBatch]
          (receiver.receiveAll [DriveCommand.typeId, DriveCommand.typeId]).1 ∧
        ((receiver.receiveAll [DriveCommand.typeId, DriveCommand.typeId]).2.receiveBatch
          DriveCommand.typeId).1 = .error .disconnected := by
  have hallowed := Link.standardTimeout_allowed .started
  have hfront : (Link.stuttering.reader.outlook IoErrorKind.isWaitedThrough).bytes.take
      Handshake.size = Handshake.encode Link.stuttering.ours := by
    have hreader : Link.stuttering.reader.outlook IoErrorKind.isWaitedThrough =
        ⟨Handshake.encode Link.stuttering.ours ++ [7, 8], .stalled⟩ := Link.peer_stuttering
    rw [hreader, List.take_left' (Handshake.length_encode _)]
  have hsame : Link.stuttering.reader.schema.hash = Link.stuttering.ours := rfl
  have hanswer : Link.stuttering.writer.stream.answer Handshake.size = .ok () :=
    Link.willing_shortWrites.answer _
  obtain ⟨sender, hexchange, -⟩ :=
    Link.exchange_matching hsame hanswer hallowed (Negotiator.sees_waitedThrough _) hfront
  obtain ⟨-, -, -, hhello⟩ := Link.sent_of_exchange hexchange
  obtain ⟨hschema, hconfig, haccepted⟩ := Writer.accepted_of_writeRaw hhello
  have hwilling := Writer.willing_of_writeRaw Link.willing_shortWrites hhello
  have hencode : driveBatch.encode sender.link.writer.schema = .ok Packet.drivePacket := by
    rw [hschema]
    exact encode_driveBatch
  have hbatches : ∀ b ∈ [driveBatch, driveBatch],
      b.records.length ≤ sender.link.writer.config.maxRecords ∧
        ∃ p, b.encode sender.link.writer.schema = .ok p := by
    intro b hb
    obtain rfl : b = driveBatch := by simpa using hb
    rw [hconfig]
    exact ⟨by decide, _, hencode⟩
  obtain ⟨sent, hsent⟩ := exists_sendAll hwilling hbatches
  have hbytes : sent.link.writer.stream.accepted =
      Link.stuttering.writer.stream.accepted ++ (crumbs Link.stuttering.ours).flatten := by
    obtain ⟨packets, hpackets, hall⟩ := sendAll_ok hsent
    rcases hpackets with _ | ⟨hfirst, _ | ⟨hsecond, _ | _⟩⟩
    cases hencode.symm.trans hfirst
    cases hencode.symm.trans hsecond
    rw [hall, haccepted, flatten_crumbs, List.append_assoc]
  have hscript : (ReadScript.mk ((crumbs Link.stuttering.ours).map .deliver) 0 ⟨false, []⟩).pending =
      (crumbs Link.stuttering.ours).map .deliver := rfl
  obtain ⟨receiver, hreceiver, hreceived, hgone⟩ := receiveAll_sendAll hexchange hsent
    (ne_nil_of_mem_crumbs _) hbytes hscript 7 rfl hanswer .started
  exact ⟨sender, sent, _, hexchange, hsent, hbytes, receiver, hreceiver, hreceived, hgone _ _ rfl⟩

end Session

end CommandLink
