import CommandLink.Packet.Codec
import CommandLink.Stream.Error

/-!
# Reading packets from a stream

A reader keeps the bytes that have arrived and not been consumed. `Reader.readPacket` takes packets
off the front of them and reads on while the front packet is incomplete; `Reader.readRaw` takes
bytes that are not part of a packet. A refused packet is consumed, so reading goes on behind it.
-/

namespace CommandLink

/-- Counts of what a reader met. -/
structure ReaderStats where
  /-- Packets decoded. -/
  packets : Nat
  /-- Packets refused. -/
  errors : Nat
  /-- Packets refused since the last one decoded, at most `2 ^ 32 - 1`. -/
  consecutiveErrors : Nat
deriving DecidableEq, Repr

namespace ReaderStats

/-- The counts of a new reader. -/
def zero : ReaderStats := ⟨0, 0, 0⟩

/-- One more packet decoded. -/
def countPacket (s : ReaderStats) : ReaderStats := ⟨s.packets + 1, s.errors, 0⟩

/-- One more packet refused. -/
def countError (s : ReaderStats) : ReaderStats :=
  ⟨s.packets, s.errors + 1, min (s.consecutiveErrors + 1) (2 ^ 32 - 1)⟩

end ReaderStats

/-- A reader of packets of one message type at a time. -/
structure Reader where
  stream : ReadScript
  /-- Bytes that have arrived and not been consumed. -/
  buffer : Bytes
  schema : Schema
  /-- The message type that further packets are decoded as. -/
  typeId : UInt16
  config : ChannelConfig
  stats : ReaderStats

namespace Reader

/-- The room that a read call offers. -/
def readSize : Nat := 8192

/-- A reader with nothing buffered. -/
def new (stream : ReadScript) (schema : Schema) (typeId : UInt16) (config : ChannelConfig) : Reader :=
  ⟨stream, [], schema, typeId, config, .zero⟩

/-- A reader whose timeout is set on the stream at once. -/
def newWithTimeout (stream : ReadScript) (schema : Schema) (typeId : UInt16)
    (config : ChannelConfig) : Except FrameError Reader :=
  match stream.timeouts.apply config.timeout with
  | .ok timeouts => .ok (new { stream with timeouts } schema typeId config)
  | .error kind => .error (.io kind)

/-- Buffers what the next read call delivers. -/
def fill (r : Reader) : Except FrameError Unit × Reader :=
  match r.stream.readSteadily readSize with
  | (.delivered bytes, stream) => (.ok (), { r with stream, buffer := r.buffer ++ bytes })
  | (.ended, stream) => (.error .connectionClosed, { r with stream })
  | (.failed kind, stream) => (.error (.io kind), { r with stream })

/-- The number of records that the buffered header announces, if that is more than is admitted. -/
def excess? (r : Reader) : Option Nat :=
  match Header.parse? r.buffer with
  | some header => if r.config.maxRecords < header.count.toNat then some header.count.toNat else none
  | none => none

/-- Decodes the packet at the front of the buffer: nothing while it is incomplete. -/
def decodeBuffered (r : Reader) : Except FrameError (Option Packet) × Reader :=
  match r.excess? with
  | some count =>
    (.error (.packetTooLarge count r.config.maxRecords),
      { r with buffer := [], stats := r.stats.countError })
  | none =>
    match Packet.decodeFront r.schema r.typeId r.buffer with
    | (.ok (some packet), buffer) =>
      (.ok (some packet), { r with buffer, stats := r.stats.countPacket })
    | (.ok none, _) => (.ok none, r)
    | (.error (.unknownMessageType id), _) => (.error (.decode (.unknownMessageType id)), r)
    | (.error cause, buffer) => (.error (.decode cause), { r with buffer, stats := r.stats.countError })

theorem size_go_lt {s t : ReadScript} {room : Nat} {bytes : Bytes} (hroom : 0 < room)
    (pending : List ReadEvent) (calls : Nat)
    (h : ReadScript.readSteadily.go s room pending calls = (.delivered bytes, t)) :
    t.size < pending.foldr (fun event size => event.size + size) 0 := by
  fun_induction ReadScript.readSteadily.go s room pending calls with
  | case1 calls rest ih =>
    rw [List.foldr_cons]
    exact Nat.lt_of_lt_of_le (ih h) (Nat.le_add_left ..)
  | case2 calls pending _ => exact ReadScript.size_read_lt hroom h

/-- Filling the buffer uses up some of the stream. -/
theorem size_fill_lt {r t : Reader} (h : r.fill = (.ok (), t)) : t.stream.size < r.stream.size := by
  rw [fill] at h
  split at h <;> rename_i hs
  · simp only [Prod.mk.injEq, true_and] at h
    rw [← h]
    exact size_go_lt (by decide) _ _ hs
  · simp at h
  · simp at h

theorem stream_decodeBuffered (r : Reader) : r.decodeBuffered.2.stream = r.stream := by
  rw [decodeBuffered]
  split
  · rfl
  · split <;> rfl

/-- Reads the next complete packet. -/
def readPacket (r : Reader) : Except FrameError Packet × Reader :=
  match _h : r.decodeBuffered with
  | (.error e, next) => (.error e, next)
  | (.ok (some packet), next) => (.ok packet, next)
  | (.ok none, next) =>
    match _hf : next.fill with
    | (.error e, filled) => (.error e, filled)
    | (.ok (), filled) => filled.readPacket
termination_by r.stream.size
decreasing_by
  have := size_fill_lt _hf
  have same := stream_decodeBuffered r
  rw [_h] at same
  rwa [← same]

/-- Takes up to `limit` bytes, reading from the stream only if nothing is buffered. -/
def readRaw (r : Reader) (limit : Nat) : Except FrameError Bytes × Reader :=
  if limit = 0 then (.ok [], r)
  else
    let take (r : Reader) : Except FrameError Bytes × Reader :=
      (.ok (r.buffer.take limit), { r with buffer := r.buffer.drop limit })
    if r.buffer.isEmpty then
      match r.fill with
      | (.ok (), filled) => take filled
      | (.error e, filled) => (.error e, filled)
    else take r

/-- Expects another message type from the next packet on. -/
def setTypeId (r : Reader) (typeId : UInt16) : Reader := { r with typeId }

/-- Starts counting anew. -/
def resetStats (r : Reader) : Reader := { r with stats := .zero }

/-- Bounds further reads by a timeout. -/
def setTimeout (r : Reader) (timeout : Option Duration) : Except IoErrorKind Reader :=
  (r.stream.timeouts.apply timeout).map fun timeouts =>
    { r with stream := { r.stream with timeouts } }

end Reader

end CommandLink
