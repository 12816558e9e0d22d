import CommandLink.DriveCommand
import CommandLink.Packet.Error
import CommandLink.Packet.Header

/-!
# Packets

A packet is a header, the records of one batch and a checksum over all of that. `Packet.encode`
writes one, `Packet.decode` reads a byte string that is exactly one packet, and `Packet.decodeFront`
takes one off the front of a stream's bytes.

A receiver looks at a packet in a fixed order: the message type, the header, the announced length,
the checksum, the version, what follows, and then each record. So records are read only after the
checksum has been verified.
-/

namespace CommandLink

/-- A decoded packet. The message type is what the receiver asked for; it does not travel. -/
structure Packet where
  header : Header
  typeId : UInt16
  records : List Record
deriving DecidableEq, Repr

namespace Packet

/-! ## Encoding -/

/-- The bytes of the record at `index` of a batch. -/
def encodeRecord (m : Message) (record : Record) (index : Nat) : Except EncodeError Bytes :=
  (m.encode record).mapError (.ofRecord index)

/-- The bytes of the records of a batch, or the refusal of the first that is refused. -/
def encodeRecords (m : Message) (records : List Record) : Except EncodeError Bytes :=
  (records.zipIdx.mapM fun (record, index) => encodeRecord m record index).map List.flatten

/-- Bytes with their checksum behind them. -/
def withChecksum (body : Bytes) : Bytes :=
  body ++ Bytes.ofNat Checksum.size (Checksum.compute body).toNat

/-- The packet of a batch. -/
def encode (s : Schema) (typeId : UInt16) (records : List Record) (flags : Flags) :
    Except EncodeError Bytes :=
  match s.message? typeId with
  | none => .error (.unknownMessageType typeId)
  | some m =>
    if Header.maxCount < records.length then
      .error (.batchTooLarge records.length Header.maxCount)
    else
      (encodeRecords m records).map fun body =>
        withChecksum ((Header.mk s.version flags (UInt16.ofNat records.length)).toBytes ++ body)

/-- Writes the records of a batch, from the one at `index` on, until one is refused: what was written,
before it `done`, which holds the pieces in reverse, and the refusal. Of a refused record the fields
before the refused one have been written. -/
def writeRecords (m : Message) :
    List Record → (index : Nat) → (done : List Bytes) → List Bytes × Option EncodeError
  | [], _, done => (done.reverse, none)
  | record :: rest, index, done =>
    match m.write record with
    | (bytes, none) => writeRecords m rest (index + 1) (bytes :: done)
    | (bytes, some refusal) => ((bytes :: done).reverse, some (.ofRecord index refusal))

/-- Appends the packet of a batch to `buffer`. Header and records are written where the buffer ends;
when a record is refused, all that was written is cut off again. The checksum covers what stands
behind the old end. -/
def append (s : Schema) (typeId : UInt16) (records : List Record) (flags : Flags)
    (buffer : Bytes) : Except EncodeError Unit × Bytes :=
  match s.message? typeId with
  | none => (.error (.unknownMessageType typeId), buffer)
  | some m =>
    if Header.maxCount < records.length then
      (.error (.batchTooLarge records.length Header.maxCount), buffer)
    else
      let header := Header.mk s.version flags (UInt16.ofNat records.length)
      let (written, refusal) := writeRecords m records 0 []
      let filled := buffer ++ header.toBytes ++ written.flatten
      match refusal with
      | some cause => (.error cause, filled.take buffer.length)
      | none =>
        (.ok (), filled ++
          Bytes.ofNat Checksum.size (Checksum.compute (filled.drop buffer.length)).toNat)

/-- The packet of a batch of drive commands. -/
def encodeCommands (s : Schema) (commands : List DriveCommand) (flags : Flags) :
    Except EncodeError Bytes :=
  encode s DriveCommand.typeId (commands.map DriveCommand.toRecord) flags

/-! ## Decoding -/

/-- The first `count` pieces of `size` bytes, before `done`, which holds them in reverse. -/
def piecesOnto (size : Nat) : (count : Nat) → Bytes → (done : List Bytes) → List Bytes
  | 0, _, done => done.reverse
  | count + 1, bytes, done => piecesOnto size count (bytes.drop size) (bytes.take size :: done)

/-- The first `count` pieces of `size` bytes. -/
def pieces (size count : Nat) (bytes : Bytes) : List Bytes := piecesOnto size count bytes []

/-- The records of a verified packet, or the refusal of the first that is refused. -/
def decodeRecords (m : Message) (count : Nat) (body : Bytes) : Except DecodeError (List Record) :=
  (pieces m.wireSize count body).zipIdx.mapM fun (piece, index) =>
    (m.decode piece).mapError (.invalidRecord index)

/-- Checks the checksum and then the version of the bytes of one packet. -/
def verify (s : Schema) (header : Header) (packet : Bytes) : Except DecodeError Unit :=
  let body := packet.take (packet.length - Checksum.size)
  let carried := UInt32.ofNat (Bytes.toNat (packet.drop (packet.length - Checksum.size)))
  let computed := Checksum.compute body
  if carried ≠ computed then .error (.checksumMismatch carried computed)
  else if header.version ≠ s.version then .error (.unsupportedVersion header.version s.version)
  else .ok ()

/-- The packet with the given header, from verified bytes of its announced length. -/
def ofVerified (m : Message) (typeId : UInt16) (header : Header) (packet : Bytes) :
    Except DecodeError Packet :=
  (decodeRecords m header.count.toNat (packet.drop Header.size)).map fun records =>
    ⟨header, typeId, records⟩

/-- The packet that `bytes` are. -/
def decode (s : Schema) (typeId : UInt16) (bytes : Bytes) : Except DecodeError Packet :=
  match s.message? typeId with
  | none => .error (.unknownMessageType typeId)
  | some m =>
    match Header.parse? bytes with
    | none => .error (.truncated Header.size bytes.length)
    | some header =>
      let total := packetLength header.count.toNat m.wireSize
      if bytes.length < total then .error (.truncated total bytes.length)
      else
        match verify s header (bytes.take total) with
        | .error e => .error e
        | .ok () =>
          if total < bytes.length then .error (.trailingBytes (bytes.length - total))
          else ofVerified m typeId header bytes

/-- Takes the packet at the front of `buffer`: nothing while it is incomplete. A complete packet is
consumed, whether it decodes or is refused; an unknown message type consumes nothing. -/
def decodeFront (s : Schema) (typeId : UInt16) (buffer : Bytes) :
    Except DecodeError (Option Packet) × Bytes :=
  match s.message? typeId with
  | none => (.error (.unknownMessageType typeId), buffer)
  | some m =>
    match Header.parse? buffer with
    | none => (.ok none, buffer)
    | some header =>
      let total := packetLength header.count.toNat m.wireSize
      if buffer.length < total then (.ok none, buffer)
      else
        let packet := buffer.take total
        match verify s header packet with
        | .error e => (.error e, buffer.drop total)
        | .ok () => ((ofVerified m typeId header packet).map some, buffer.drop total)

/-- The drive commands of a packet that was decoded as one of drive commands. -/
def commands (p : Packet) : Except DecodeError (List DriveCommand) :=
  if p.typeId = DriveCommand.typeId then
    p.records.zipIdx.mapM fun (record, index) =>
      (DriveCommand.ofRecord record).mapError (.invalidRecord index)
  else .error (.unknownMessageType p.typeId)

end Packet

end CommandLink
