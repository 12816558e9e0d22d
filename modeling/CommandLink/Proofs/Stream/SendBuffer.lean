import CommandLink.Proofs.Packet.Appending
import CommandLink.Proofs.Stream.WriteCalls

/-!
# One packet on a stream

What a call to write a packet does on the stream, whatever the stream answers (`Written`): no call at
all if the batch is refused, and otherwise calls that offer the packet and nothing else.

A writer may keep the buffer that it encodes packets in (`BufferedWriter`): it clears the buffer, appends
the packet and offers the buffer from an offset on, which moves behind what was taken. What an earlier
call left in the buffer does not matter, so it is as good as a new buffer for each packet.

* `writeFrom_eq`, `BufferedWriter.writePacket_writer`: with a buffer and an offset the same calls are made.
* `writePacket_written`: the packet, or a front of it, is what a call puts on the stream.
-/

namespace CommandLink

/-! ## A buffer that is kept -/

/-- Offers a buffer from an offset on until all is taken. -/
def WriteScript.writeFrom (s : WriteScript) (buffer : Bytes) (offset : Nat) :
    Except FrameError Unit × WriteScript :=
  if _hlt : offset < buffer.length then
    match _h : s.write (buffer.drop offset) with
    | (.ok 0, next) => (.error .connectionClosed, next)
    | (.ok (taken + 1), next) => next.writeFrom buffer (offset + (taken + 1))
    | (.error kind, next) =>
      if kind.isRetriedWrite then next.writeFrom buffer offset else (.error (.io kind), next)
  else (.ok (), s)
termination_by s.writes.length + (buffer.length - offset)
decreasing_by
  · have := length_writes_write _h
    omega
  · have := length_writes_lt _h
    omega

/-- A writer with the buffer that it keeps from one call to the next. -/
structure BufferedWriter where
  writer : Writer
  buffer : Bytes

namespace BufferedWriter

/-- Writes what is in the buffer and flushes. -/
def send (b : BufferedWriter) : Except FrameError Unit × BufferedWriter :=
  match b.writer.stream.writeFrom b.buffer 0 with
  | (.ok (), stream) =>
    let (result, flushed) := stream.flushAll
    (result, { b with writer := { b.writer with stream := flushed } })
  | (.error cause, stream) => (.error cause, { b with writer := { b.writer with stream } })

/-- Writes one batch as a packet, by way of the buffer, which is cleared first. -/
def writePacket (b : BufferedWriter) (typeId : UInt16) (records : List Record) (flags : Flags) :
    Except FrameError Unit × BufferedWriter :=
  if b.writer.config.maxRecords < records.length then
    (.error (.encode (.batchTooLarge records.length b.writer.config.maxRecords)), b)
  else
    match Packet.append b.writer.schema typeId records flags [] with
    | (.error cause, buffer) => (.error (.encode cause), { b with buffer })
    | (.ok (), buffer) => { b with buffer }.send

end BufferedWriter

/-- **An offset into the buffer** is as good as the bytes behind it. -/
theorem WriteScript.writeFrom_eq (s : WriteScript) (buffer : Bytes) (offset : Nat) :
    s.writeFrom buffer offset = s.writeAll (buffer.drop offset) := by
  have hne {offset : Nat} (hlt : offset < buffer.length) : buffer.drop offset ≠ [] := by
    rw [ne_eq, List.drop_eq_nil_iff]
    omega
  fun_induction writeFrom s buffer offset with
  | case1 s offset hlt next hwrite => rw [writeAll_of_write_zero (hne hlt) hwrite]
  | case2 s offset hlt n next hwrite ih =>
    rw [writeAll_of_write_ok (hne hlt) hwrite, List.drop_drop, ih]
  | case3 s offset hlt kind next hwrite hretried ih =>
    rw [writeAll_of_write_again (hne hlt) hwrite hretried, ih]
  | case4 s offset hlt kind next hwrite hretried =>
    rw [writeAll_of_write_error (hne hlt) hwrite ((Bool.not_eq_true _).mp hretried)]
  | case5 s offset hlt =>
    rw [List.drop_of_length_le (Nat.not_lt.mp hlt), writeAll, dif_pos rfl]

namespace BufferedWriter

theorem send_writer (b : BufferedWriter) : b.send.1 = (b.writer.writeRaw b.buffer).1 ∧
    b.send.2.writer = (b.writer.writeRaw b.buffer).2 := by
  unfold send Writer.writeRaw WriteScript.send
  rw [WriteScript.writeFrom_eq, List.drop_zero]
  rcases b.writer.stream.writeAll b.buffer with ⟨_ | _, next⟩ <;> exact ⟨rfl, rfl⟩

/-- **What is in the buffer beforehand does not matter**: the call answers and leaves the stream as it
would with a new buffer. -/
theorem writePacket_writer (b : BufferedWriter) (typeId : UInt16) (records : List Record)
    (flags : Flags) :
    (b.writePacket typeId records flags).1 = (b.writer.writePacket typeId records flags).1 ∧
      (b.writePacket typeId records flags).2.writer =
        (b.writer.writePacket typeId records flags).2 := by
  unfold writePacket Writer.writePacket
  split
  · exact ⟨rfl, rfl⟩
  · rw [Packet.append_eq]
    cases Packet.encode b.writer.schema typeId records flags with
    | error cause => exact ⟨rfl, rfl⟩
    | ok bytes => exact send_writer ⟨b.writer, bytes⟩

end BufferedWriter

namespace Writer

/-! ## Writing a packet -/

/-- How a call to write a packet ended, by which calls on the stream, and what the stream took. -/
inductive Written (w : Writer) (typeId : UInt16) (records : List Record) (flags : Flags) :
    Except FrameError Unit → List WriteCall → (taken : Bytes) → Prop where
  | tooMany (excess : w.config.maxRecords < records.length) :
      Written w typeId records flags
        (.error (.encode (.batchTooLarge records.length w.config.maxRecords))) [] []
  | refused {cause : EncodeError} (fits : records.length ≤ w.config.maxRecords)
      (encode : Packet.encode w.schema typeId records flags = .error cause) :
      Written w typeId records flags (.error (.encode cause)) [] []
  | sent {bytes taken : Bytes} {result : Except FrameError Unit} {calls : List WriteCall}
      (fits : records.length ≤ w.config.maxRecords)
      (encode : Packet.encode w.schema typeId records flags = .ok bytes)
      (sent : Sent bytes result calls taken) : Written w typeId records flags result calls taken

variable {w : Writer} {typeId : UInt16} {records : List Record} {flags : Flags}
  {result : Except FrameError Unit} {calls : List WriteCall} {taken : Bytes}

theorem Written.flatMap_taken (hwritten : Written w typeId records flags result calls taken) :
    calls.flatMap WriteCall.taken = taken := by
  cases hwritten with
  | tooMany excess => rfl
  | refused fits encode => rfl
  | sent fits encode sent => exact sent.flatMap_taken

/-- Nothing is offered but what is left of this call's packet. -/
theorem Written.suffix (hwritten : Written w typeId records flags result calls taken) {piece : Bytes}
    {answer : Except IoErrorKind Nat} (hcall : .write piece answer ∈ calls) :
    ∃ bytes, Packet.encode w.schema typeId records flags = .ok bytes ∧ piece <:+ bytes := by
  cases hwritten with
  | tooMany excess => cases hcall
  | refused fits encode => cases hcall
  | sent fits encode sent => exact ⟨_, encode, sent.suffix hcall⟩

/-- **A batch is refused before any call**, or its packet is sent. -/
theorem exists_written (w : Writer) (typeId : UInt16) (records : List Record) (flags : Flags) :
    ∃ calls taken,
      Written w typeId records flags (w.writePacket typeId records flags).1 calls taken ∧
        w.stream.Serves calls (w.writePacket typeId records flags).2.stream := by
  unfold writePacket
  split
  · rename_i hexcess
    exact ⟨[], [], .tooMany hexcess, .nil _⟩
  rename_i hexcess
  have hfits := Nat.not_lt.mp hexcess
  cases hencode : Packet.encode w.schema typeId records flags with
  | error cause => exact ⟨[], [], .refused hfits hencode, .nil _⟩
  | ok bytes =>
    obtain ⟨calls, taken, hsent, hserves⟩ := w.stream.send_calls bytes
    exact ⟨calls, taken, .sent hfits hencode hsent, hserves⟩

/-- The answer does not depend on failures that are passed over, and neither does what is taken. -/
theorem writePacket_calmed {t : WriteScript} (hcalmed : w.stream.Calmed t) (typeId : UInt16)
    (records : List Record) (flags : Flags) :
    (writePacket { w with stream := t } typeId records flags).1 =
        (w.writePacket typeId records flags).1 ∧
      (w.writePacket typeId records flags).2.stream.Calmed
        (writePacket { w with stream := t } typeId records flags).2.stream := by
  unfold writePacket
  dsimp only
  split
  · exact ⟨rfl, hcalmed⟩
  · cases Packet.encode w.schema typeId records flags with
    | error cause => exact ⟨rfl, hcalmed⟩
    | ok bytes => exact hcalmed.send bytes

/-- **A call puts its packet on the stream, or a front of it.** For every writer, every stream and
every batch, a call to write a packet makes a row of calls on the stream as `Written` says:

* if it succeeds, the stream has taken the packet of this batch, and then a flush succeeded;
* if the batch is refused, no call is made at all;
* if the stream takes no more or fails for good, it has taken a front of the packet, and the whole of it
  only if the failure came from a flush.

What the stream has afterwards is what it had and then what it took. Every write call offers the end
of this packet, never anything else. Without the interrupted calls and those that would block, the
answer and the bytes on the stream are the same. And the call is the same for a writer that keeps its
buffer, whatever earlier calls have left there. -/
theorem writePacket_written (w : Writer) (typeId : UInt16) (records : List Record) (flags : Flags) :
    ∃ calls taken,
      Written w typeId records flags (w.writePacket typeId records flags).1 calls taken ∧
      w.stream.Serves calls (w.writePacket typeId records flags).2.stream ∧
      (w.writePacket typeId records flags).2.stream.accepted = w.stream.accepted ++ taken ∧
      (∀ piece answer, .write piece answer ∈ calls →
        ∃ bytes, Packet.encode w.schema typeId records flags = .ok bytes ∧ piece <:+ bytes) ∧
      (∀ t, w.stream.Calmed t →
        (writePacket { w with stream := t } typeId records flags).1 =
            (w.writePacket typeId records flags).1 ∧
          (w.writePacket typeId records flags).2.stream.Calmed
            (writePacket { w with stream := t } typeId records flags).2.stream) ∧
      ∀ buffer,
        (BufferedWriter.writePacket ⟨w, buffer⟩ typeId records flags).1 =
            (w.writePacket typeId records flags).1 ∧
          (BufferedWriter.writePacket ⟨w, buffer⟩ typeId records flags).2.writer =
            (w.writePacket typeId records flags).2 := by
  obtain ⟨calls, taken, hwritten, hserves⟩ := w.exists_written typeId records flags
  refine ⟨calls, taken, hwritten, hserves, ?_, fun piece answer => hwritten.suffix,
    fun t hcalmed => writePacket_calmed hcalmed typeId records flags,
    fun buffer => BufferedWriter.writePacket_writer ⟨w, buffer⟩ typeId records flags⟩
  rw [hserves.accepted, hwritten.flatMap_taken]

end Writer

end CommandLink
