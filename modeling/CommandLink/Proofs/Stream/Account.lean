import CommandLink.Proofs.Packet.Front
import CommandLink.Proofs.Stream.Reads

/-!
# The account of one call on a reader

What a call reads off the stream, behind what is in the buffer, is what it takes off the front and
what it leaves in the buffer (`Balanced`). That holds of every reader whose limit is not below that
of the count field, so that it never throws bytes away.

* `fill_account`, `readRaw_account`, `readPacket_account`: what the three loops read and take, how
  that goes with what they answer, and that `readPacket` reads on only while the bytes at hand are an
  incomplete packet.
-/

namespace CommandLink

/-! ## Runs of read calls -/

namespace ReadOutcome

variable {size : Nat} {buffer : Bytes} {reads more waits : List ReadOutcome}

/-- All calls went on; an interruption is passed over. -/
def Steady (reads : List ReadOutcome) : Prop :=
  ∀ o ∈ reads, o.goesOn IoErrorKind.isInterruption = true

/-- The read calls after which there is no result: the last one ended or failed, and the others went
on. -/
inductive Stops : List ReadOutcome → FrameError → Prop where
  | closed {waits : List ReadOutcome} (before : Steady waits) :
      Stops (waits ++ [.ended]) .connectionClosed
  | failed {waits : List ReadOutcome} {kind : IoErrorKind} (before : Steady waits)
      (lasting : kind ≠ .interrupted) : Stops (waits ++ [.failed kind]) (.io kind)

/-- Every one of the read calls was made while the bytes at hand were an incomplete packet. -/
def Needed (size : Nat) : Bytes → List ReadOutcome → Prop
  | _, [] => True
  | buffer, outcome :: reads =>
    Packet.Incomplete size buffer ∧ Needed size (buffer ++ outcome.bytes) reads

theorem Steady.append (hreads : Steady reads) (hmore : Steady more) : Steady (reads ++ more) :=
  fun o ho => (List.mem_append.mp ho).elim (hreads o) (hmore o)

theorem Stops.prepend {cause : FrameError} (hreads : Steady reads) (hmore : Stops more cause) :
    Stops (reads ++ more) cause := by
  cases hmore with
  | closed before =>
    rw [← List.append_assoc]
    exact .closed (hreads.append before)
  | failed before lasting =>
    rw [← List.append_assoc]
    exact .failed (hreads.append before) lasting

theorem Needed.append (hreads : Needed size buffer reads)
    (hmore : Needed size (buffer ++ reads.flatMap bytes) more) :
    Needed size buffer (reads ++ more) := by
  induction reads generalizing buffer with
  | nil => simpa using hmore
  | cons outcome reads ih =>
    refine ⟨hreads.1, ih hreads.2 ?_⟩
    rwa [List.flatMap_cons, ← List.append_assoc] at hmore

/-- The last call was made on an incomplete packet. -/
theorem Needed.incomplete {last : ReadOutcome} (hneeded : Needed size buffer (reads ++ [last])) :
    Packet.Incomplete size (buffer ++ reads.flatMap bytes) := by
  induction reads generalizing buffer with
  | nil => simpa using hneeded.1
  | cons outcome reads ih =>
    rw [List.flatMap_cons, ← List.append_assoc]
    exact ih hneeded.2

section Waits

variable (hwaits : ∀ w ∈ waits, w = .failed .interrupted)

include hwaits in
theorem steady_of_waits : Steady waits := by
  intro w hw
  rw [hwaits w hw]
  rfl

include hwaits in
theorem bytes_of_waits : waits.flatMap bytes = [] := by
  rw [List.flatMap_eq_nil_iff]
  intro w hw
  rw [hwaits w hw]
  rfl

include hwaits in
/-- One call behind interruptions is needed if the packet was incomplete before them. -/
theorem needed_of_waits (hincomplete : Packet.Incomplete size buffer) (outcome : ReadOutcome) :
    Needed size buffer (waits ++ [outcome]) := by
  induction waits with
  | nil => exact ⟨hincomplete, trivial⟩
  | cons w waits ih =>
    obtain ⟨rfl, hothers⟩ := List.forall_mem_cons.mp hwaits
    refine ⟨hincomplete, ?_⟩
    rw [bytes, List.append_nil]
    exact ih hothers

end Waits

end ReadOutcome

namespace Reader

open ReadOutcome (Steady Stops Needed)

variable {r next last : Reader} {m : Message} {p rest taken : Bytes}
  {reads more : List ReadOutcome}

/-- What a call read off the stream and what it took off the bytes that had arrived by then. -/
structure Balanced (r : Reader) (reads : List ReadOutcome) (taken : Bytes) (next : Reader) :
    Prop where
  stream : r.stream.Reads reads next.stream
  bytes : r.buffer ++ reads.flatMap ReadOutcome.bytes = taken ++ next.buffer
  schema : next.schema = r.schema
  typeId : next.typeId = r.typeId
  config : next.config = r.config

theorem Balanced.trans (hfirst : Balanced r reads [] next) (hsecond : Balanced next more taken last) :
    Balanced r (reads ++ more) taken last where
  stream := hfirst.stream.append hsecond.stream
  bytes := by
    rw [List.flatMap_append, ← List.append_assoc, hfirst.bytes, List.nil_append, hsecond.bytes]
  schema := hsecond.schema.trans hfirst.schema
  typeId := hsecond.typeId.trans hfirst.typeId
  config := hsecond.config.trans hfirst.config

/-! ## Reading on -/

/-- **Filling the buffer**: the stream handed out bytes, or there is no result. -/
theorem fill_account (hresponsive : r.stream.Responsive) {result : Except FrameError Unit}
    (hfill : r.fill = (result, next)) : ∃ reads, Balanced r reads [] next ∧
      (∀ size, Packet.Incomplete size r.buffer → Needed size r.buffer reads) ∧
      (result = .ok () ∧ Steady reads ∨ ∃ cause, result = .error cause ∧ Stops reads cause) := by
  rcases hread : r.stream.readSteadily readSize with ⟨outcome, stream⟩
  obtain ⟨waits, hwaits, hlast, hreads⟩ :=
    ReadScript.exists_reads_of_readSteadily hresponsive hread
  have hsteady := ReadOutcome.steady_of_waits hwaits
  have hneeded (size : Nat) (hincomplete : Packet.Incomplete size r.buffer) :=
    ReadOutcome.needed_of_waits hwaits hincomplete outcome
  have hbalanced (buffer : Bytes) (hbuffer : buffer = r.buffer ++ outcome.bytes) :
      Balanced r (waits ++ [outcome]) [] { r with stream, buffer } := by
    refine ⟨hreads, ?_, rfl, rfl, rfl⟩
    rw [List.flatMap_append, ReadOutcome.bytes_of_waits hwaits, List.flatMap_singleton, hbuffer]
    rfl
  unfold fill at hfill
  rw [hread] at hfill
  cases outcome with
  | delivered bytes =>
    cases hfill
    refine ⟨_, hbalanced _ rfl, hneeded, .inl ⟨rfl, hsteady.append fun o ho => ?_⟩⟩
    rw [List.mem_singleton.mp ho]
    rfl
  | ended =>
    cases hfill
    exact ⟨_, hbalanced _ (List.append_nil _).symm, hneeded, .inr ⟨_, rfl, .closed hsteady⟩⟩
  | failed kind =>
    cases hfill
    refine ⟨_, hbalanced _ (List.append_nil _).symm, hneeded, .inr ⟨_, rfl, .failed hsteady ?_⟩⟩
    rintro rfl
    exact hlast rfl

/-- **Raw bytes** are the front of what had arrived when the call took them. -/
theorem readRaw_account (hresponsive : r.stream.Responsive) {limit : Nat}
    {result : Except FrameError Bytes} (hraw : r.readRaw limit = (result, next)) :
    ∃ reads taken, Balanced r reads taken next ∧
      (result = .ok taken ∧ Steady reads ∧ taken.length ≤ limit ∨
        taken = [] ∧ ∃ cause, result = .error cause ∧ Stops reads cause) := by
  have htake (filled : Reader) (reads : List ReadOutcome) (hfilled : Balanced r reads [] filled) :
      Balanced r reads (filled.buffer.take limit)
        { filled with buffer := filled.buffer.drop limit } :=
    ⟨hfilled.stream, by rw [hfilled.bytes, List.nil_append, List.take_append_drop],
      hfilled.schema, hfilled.typeId, hfilled.config⟩
  have hlimit (filled : Reader) : (filled.buffer.take limit).length ≤ limit := by
    rw [List.length_take]
    exact Nat.min_le_left ..
  have hself : Balanced r [] [] r := ⟨.nil _, by simp, rfl, rfl, rfl⟩
  unfold readRaw at hraw
  by_cases hzero : limit = 0
  · rw [if_pos hzero] at hraw
    cases hraw
    exact ⟨[], [], hself, .inl ⟨rfl, nofun, Nat.zero_le _⟩⟩
  rw [if_neg hzero] at hraw
  simp only at hraw
  split at hraw
  · rcases hfill : r.fill with ⟨filling, filled⟩
    obtain ⟨reads, hfilled, -, ⟨rfl, hsteady⟩ | ⟨cause, rfl, hstops⟩⟩ :=
      fill_account hresponsive hfill
    · rw [hfill] at hraw
      cases hraw
      exact ⟨reads, _, htake filled reads hfilled, .inl ⟨rfl, hsteady, hlimit filled⟩⟩
    · rw [hfill] at hraw
      cases hraw
      exact ⟨reads, [], hfilled, .inr ⟨rfl, cause, rfl, hstops⟩⟩
  · cases hraw
    exact ⟨[], _, htake r [] hself, .inl ⟨rfl, nofun, hlimit r⟩⟩

/-! ## Reading packets -/

section Packets

variable (hm : r.schema.message? r.typeId = some m)
  (hlimit : Header.maxCount ≤ r.config.maxRecords)

include hlimit in
/-- A header never announces more than the largest batch. -/
theorem excess?_eq_none : r.excess? = none := by
  unfold excess?
  split
  · rename_i header _
    have hmax : Header.maxCount + 1 = UInt16.size := rfl
    have hlt : header.count.toNat < UInt16.size := header.count.toNat_lt
    rw [if_neg (by omega)]
  · rfl

variable (hadmitted : r.excess? = none)

include hm hadmitted in
theorem decodeBuffered_incomplete (hincomplete : Packet.Incomplete m.wireSize r.buffer) :
    r.decodeBuffered = (.ok none, r) := by
  unfold decodeBuffered
  rw [hadmitted]
  simp only [Packet.decodeFront_incomplete hm hincomplete]

include hm hadmitted in
/-- A whole packet at the front of the buffer is taken off it with its verdict. -/
theorem decodeBuffered_whole (hbuffer : r.buffer = p ++ rest) (hp : Packet.Whole m.wireSize p) :
    ∃ stats, r.decodeBuffered =
      (((Packet.decode r.schema r.typeId p).mapError .decode).map some,
        { r with buffer := rest, stats }) := by
  unfold decodeBuffered
  rw [hadmitted, hbuffer]
  simp only [Packet.decodeFront_whole hm hp]
  have hknown := Packet.decode_whole_ne_unknown hm hp
  cases hverdict : Packet.decode r.schema r.typeId p with
  | ok packet => exact ⟨_, rfl⟩
  | error cause =>
    rw [hverdict] at hknown
    cases cause with
    | unknownMessageType id => exact absurd rfl (hknown id)
    | _ => exact ⟨_, rfl⟩

end Packets

theorem readPacket_of_decodeBuffered_none (hnone : r.decodeBuffered = (.ok none, r)) :
    r.readPacket = match r.fill with
      | (.error cause, filled) => (.error cause, filled)
      | (.ok (), filled) => filled.readPacket := by
  rw [readPacket]
  split
  · rename_i h
    rw [hnone] at h
    cases h
  · rename_i h
    rw [hnone] at h
    cases h
  · rename_i h
    rw [hnone] at h
    cases h
    split <;> simp_all

theorem readPacket_of_verdict {verdict : Except FrameError Packet}
    (hverdict : r.decodeBuffered = (verdict.map some, next)) : r.readPacket = (verdict, next) := by
  rw [readPacket]
  cases verdict <;> split <;> simp_all [Except.map]

/-- How the answer of `readPacket` goes with what it read and took: the verdict on one whole packet,
or nothing taken and no result. -/
inductive PacketTaken (s : Schema) (typeId : UInt16) (size : Nat) :
    Except FrameError Packet → List ReadOutcome → Bytes → Prop where
  | whole {result : Except FrameError Packet} {reads : List ReadOutcome} {taken : Bytes}
      (steady : Steady reads) (whole : Packet.Whole size taken)
      (verdict : result = (Packet.decode s typeId taken).mapError .decode) :
      PacketTaken s typeId size result reads taken
  | none {reads : List ReadOutcome} {cause : FrameError} (stops : Stops reads cause) :
      PacketTaken s typeId size (.error cause) reads []

theorem PacketTaken.prepend {s : Schema} {typeId : UInt16} {size : Nat}
    {result : Except FrameError Packet} (hreads : Steady reads)
    (hmore : PacketTaken s typeId size result more taken) :
    PacketTaken s typeId size result (reads ++ more) taken := by
  cases hmore with
  | whole steady whole verdict => exact .whole (hreads.append steady) whole verdict
  | none stops => exact .none (stops.prepend hreads)

/-- **Reading a packet** takes exactly one whole packet, or nothing if the stream ends or fails
first, and reads on only while the bytes at hand are an incomplete packet. -/
theorem readPacket_account (hm : r.schema.message? r.typeId = some m)
    (hlimit : Header.maxCount ≤ r.config.maxRecords) (hresponsive : r.stream.Responsive)
    {result : Except FrameError Packet} (hread : r.readPacket = (result, next)) :
    ∃ reads taken, Balanced r reads taken next ∧
      PacketTaken r.schema r.typeId m.wireSize result reads taken ∧
      Needed m.wireSize r.buffer reads := by
  induction hsize : r.stream.size using Nat.strongRecOn generalizing r with
  | ind n ih =>
    have hadmitted := excess?_eq_none hlimit
    rcases Packet.incomplete_or_whole m.wireSize r.buffer with hincomplete | ⟨p, rest, hp, hbuffer⟩
    · rw [readPacket_of_decodeBuffered_none (decodeBuffered_incomplete hm hadmitted hincomplete)]
        at hread
      rcases hfill : r.fill with ⟨filling, filled⟩
      obtain ⟨reads, hfilled, hneeded, ⟨rfl, hsteady⟩ | ⟨cause, rfl, hstops⟩⟩ :=
        fill_account hresponsive hfill
      · rw [hfill] at hread
        simp only at hread
        have hless : filled.stream.size < n := hsize ▸ size_fill_lt hfill
        obtain ⟨more, taken, hbalanced, htaken, hmore⟩ := ih _ hless
          (by rw [hfilled.schema, hfilled.typeId, hm]) (by rwa [hfilled.config])
          (hfilled.stream.responsive hresponsive) hread rfl
        rw [hfilled.schema, hfilled.typeId] at htaken
        refine ⟨reads ++ more, taken, hfilled.trans hbalanced, htaken.prepend hsteady,
          (hneeded _ hincomplete).append ?_⟩
        rwa [hfilled.bytes]
      · rw [hfill] at hread
        cases hread
        exact ⟨reads, [], hfilled, .none hstops, hneeded _ hincomplete⟩
    · obtain ⟨stats, hdecode⟩ := decodeBuffered_whole hm hadmitted hbuffer hp
      rw [readPacket_of_verdict hdecode] at hread
      cases hread
      refine ⟨[], p, ⟨.nil _, ?_, rfl, rfl, rfl⟩, .whole nofun hp rfl, trivial⟩
      rw [List.flatMap_nil, List.append_nil, hbuffer]

end Reader

end CommandLink
