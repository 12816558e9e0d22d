import CommandLink.Packet.Codec
import CommandLink.Stream.Error

/-!
# Writing packets to a stream

A writer offers the bytes of a packet until the stream has taken them all and then flushes. Calls
that are interrupted or would block are repeated; any other failure leaves the packet where it is.
-/

namespace CommandLink

/-- A writer of packets. -/
structure Writer where
  stream : WriteScript
  schema : Schema
  config : ChannelConfig

/-- Whether a write or flush call that fails in this way is repeated. -/
def IoErrorKind.isRetriedWrite (kind : IoErrorKind) : Bool :=
  kind == .interrupted || kind == .wouldBlock

namespace WriteScript

theorem length_writes_write {s t : WriteScript} {offered : Bytes} {result : Except IoErrorKind Nat}
    (h : s.write offered = (result, t)) : t.writes.length ≤ s.writes.length := by
  rw [write] at h
  split at h <;> simp only [Prod.mk.injEq] at h <;> rw [← h.2] <;> simp [*]

theorem length_writes_lt {s t : WriteScript} {offered : Bytes} {kind : IoErrorKind}
    (h : s.write offered = (.error kind, t)) : t.writes.length < s.writes.length := by
  rw [write] at h
  split at h <;> simp only [Prod.mk.injEq, reduceCtorEq, false_and] at h
  rw [← h.2]; simp [*]

theorem length_flushes_lt {s t : WriteScript} {kind : IoErrorKind}
    (h : s.flush = (.error kind, t)) : t.flushes.length < s.flushes.length := by
  rw [flush] at h
  split at h <;> simp only [Prod.mk.injEq, reduceCtorEq, false_and] at h
  rw [← h.2]; simp [*]

/-- Offers bytes until all are taken. -/
def writeAll (s : WriteScript) (offered : Bytes) : Except FrameError Unit × WriteScript :=
  if _hne : offered = [] then (.ok (), s)
  else
    match _h : s.write offered with
    | (.ok 0, next) => (.error .connectionClosed, next)
    | (.ok (taken + 1), next) => next.writeAll (offered.drop (taken + 1))
    | (.error kind, next) =>
      if kind.isRetriedWrite then next.writeAll offered else (.error (.io kind), next)
termination_by s.writes.length + offered.length
decreasing_by
  · have := length_writes_write _h
    have := List.length_pos_iff.2 _hne
    simp only [List.length_drop]
    omega
  · have := length_writes_lt _h
    omega

/-- Flushes until a call succeeds. -/
def flushAll (s : WriteScript) : Except FrameError Unit × WriteScript :=
  match _h : s.flush with
  | (.ok (), next) => (.ok (), next)
  | (.error kind, next) =>
    if kind.isRetriedWrite then next.flushAll else (.error (.io kind), next)
termination_by s.flushes.length
decreasing_by exact length_flushes_lt _h

/-- Writes bytes and flushes. -/
def send (s : WriteScript) (bytes : Bytes) : Except FrameError Unit × WriteScript :=
  match s.writeAll bytes with
  | (.ok (), next) => next.flushAll
  | (.error e, next) => (.error e, next)

end WriteScript

namespace Writer

/-- A writer whose timeout is set on the stream at once. -/
def newWithTimeout (stream : WriteScript) (schema : Schema) (config : ChannelConfig) :
    Except FrameError Writer :=
  match stream.timeouts.apply config.timeout with
  | .ok timeouts => .ok ⟨{ stream with timeouts }, schema, config⟩
  | .error kind => .error (.io kind)

/-- Writes bytes that are already framed. -/
def writeRaw (w : Writer) (bytes : Bytes) : Except FrameError Unit × Writer :=
  let (result, stream) := w.stream.send bytes
  (result, { w with stream })

/-- Writes one batch as a packet. Nothing is written if the batch is refused. -/
def writePacket (w : Writer) (typeId : UInt16) (records : List Record) (flags : Flags) :
    Except FrameError Unit × Writer :=
  if w.config.maxRecords < records.length then
    (.error (.encode (.batchTooLarge records.length w.config.maxRecords)), w)
  else
    match Packet.encode w.schema typeId records flags with
    | .error cause => (.error (.encode cause), w)
    | .ok bytes => w.writeRaw bytes

/-- Writes one batch of drive commands as a packet. -/
def writeCommands (w : Writer) (commands : List DriveCommand) (flags : Flags) :
    Except FrameError Unit × Writer :=
  w.writePacket DriveCommand.typeId (commands.map DriveCommand.toRecord) flags

/-- Flushes the stream. -/
def flush (w : Writer) : Except FrameError Unit × Writer :=
  let (result, stream) := w.stream.flushAll
  (result, { w with stream })

/-- Changes the largest batch. -/
def setMaxRecords (w : Writer) (maxRecords : Nat) : Writer :=
  { w with config := { w.config with maxRecords } }

end Writer

end CommandLink
