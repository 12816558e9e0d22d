import CommandLink.Proofs.Stream.Outlook

/-!
# Fragments of a stream

Two readers with the same bytes to be had, on streams that hand them out in different pieces. A call
for a packet answers what those bytes say (`Cut`), at any limit. It also leaves the same bytes to be
had, unless the answer is that a packet is too large: then everything is gone that had been handed
out, and how much that is depends on the pieces.

* **One call** (`Carries.readPacket`): the answer and what is left of the bytes.
* **Two readers** (`Carries.lockstep`): they stay together as long as what they throw away does.
* **Calls one after the other** (`Carries.exists_closed`, `Carries.answer`): they reach the end, and
  every answer is what the bytes say that are still to be had.
* `answer_congr`: what follows for new readers on two streams.
* `not_forall_answer`: a packet behind one that is too large is seen on one stream and not on the other.
-/

namespace CommandLink

namespace Packet

/-- No header at the front announces more records than that. -/
def Admitted (limit : Nat) (bytes : Bytes) : Prop :=
  ∀ h, Header.parse? bytes = some h → h.count.toNat ≤ limit

/-- Whether a whole packet is admitted does not depend on what stands behind it. -/
theorem Whole.admitted {size limit : Nat} {p tail : Bytes} (hp : Whole size p)
    (hadmitted : Admitted limit (p ++ tail)) (rest : Bytes) : Admitted limit (p ++ rest) := by
  obtain ⟨h, hparse, -⟩ := hp
  intro h' hparse'
  cases (Header.parse?_append hparse rest).symm.trans hparse'
  exact hadmitted h (Header.parse?_append hparse tail)

end Packet

open Packet (Whole Incomplete Admitted)

/-- A stream that delivers these pieces and then ends. -/
def ReadScript.ofPieces (pieces : List Bytes) : ReadScript := ⟨pieces.map .deliver, 0, ⟨false, []⟩⟩

namespace Reader

/-- What is answered when a packet is asked for, of the bytes to be had from a stream that then ends,
and which of them are left. -/
inductive Cut (s : Schema) (typeId : UInt16) (size limit : Nat) (bytes : Bytes) :
    Except FrameError Packet → Bytes → Prop where
  | packet {p rest : Bytes} (split : bytes = p ++ rest) (whole : Whole size p)
      (admitted : Admitted limit bytes) :
      Cut s typeId size limit bytes ((Packet.decode s typeId p).mapError .decode) rest
  | excess {h : Header} {gone rest : Bytes} (split : bytes = gone ++ rest)
      (header : Header.parse? gone = some h) (excess : limit < h.count.toNat) :
      Cut s typeId size limit bytes (.error (.packetTooLarge h.count.toNat limit)) rest
  | closed (incomplete : Incomplete size bytes) (admitted : Admitted limit bytes) :
      Cut s typeId size limit bytes (.error .connectionClosed) bytes

/-- These bytes are to be had, and then the stream ends. -/
structure Carries (s : Schema) (typeId : UInt16) (limit : Nat) (r : Reader) (bytes : Bytes) : Prop
  where
  schema : r.schema = s
  typeId : r.typeId = typeId
  limit : r.config.maxRecords = limit
  outlook : r.outlook IoErrorKind.isInterruption = ⟨bytes, .ended⟩

variable {s : Schema} {typeId : UInt16} {m : Message} {size limit : Nat} {r a b next : Reader}
  {bytes rest left : Bytes} {result reply : Except FrameError Packet}

/-! ## What the bytes say -/

theorem not_admitted {h : Header} {gone : Bytes} (split : bytes = gone ++ rest)
    (header : Header.parse? gone = some h) (excess : limit < h.count.toNat) :
    ¬ Admitted limit bytes := by
  intro hadmitted
  have := hadmitted h (split ▸ Header.parse?_append header rest)
  omega

section Cut

variable (hcut : Cut s typeId size limit bytes result rest)

include hcut in
theorem Cut.suffix : rest <:+ bytes := by
  cases hcut with
  | packet split whole admitted => exact ⟨_, split.symm⟩
  | excess split header excess => exact ⟨_, split.symm⟩
  | closed incomplete admitted => exact List.suffix_rfl

include hcut in
/-- Every answer but the last takes some bytes. -/
theorem Cut.length_lt (hopen : result ≠ .error .connectionClosed) : rest.length < bytes.length := by
  have hfront {front : Bytes} {h : Header} (hparse : Header.parse? front = some h) :
      0 < front.length := by
    rw [Header.eq_toBytes_append hparse, List.length_append, Header.length_toBytes]
    exact Nat.add_pos_left (by decide) _
  cases hcut with
  | packet split whole admitted =>
    obtain ⟨h, hparse, -⟩ := whole
    have := hfront hparse
    simp [split, this]
  | excess split header excess =>
    have := hfront header
    simp [split, this]
  | closed incomplete admitted => exact absurd rfl hopen

include hcut in
/-- **The bytes say what is answered**, and what is left unless a packet is too large. -/
theorem Cut.agree (hother : Cut s typeId size limit bytes reply left) :
    result = reply ∧
      (rest = left ∨ ∃ count max, result = .error (.packetTooLarge count max)) := by
  cases hcut with
  | packet split whole admitted =>
    cases hother with
    | packet split' whole' _ =>
      obtain ⟨rfl, rfl⟩ := whole.append_inj whole' (split.symm.trans split')
      exact ⟨rfl, .inl rfl⟩
    | excess split' header excess => exact absurd admitted (not_admitted split' header excess)
    | closed incomplete _ => exact absurd (split ▸ incomplete) (whole.not_incomplete _)
  | excess split header excess =>
    cases hother with
    | packet _ _ admitted => exact absurd admitted (not_admitted split header excess)
    | excess split' header' _ =>
      have hparse := split ▸ Header.parse?_append header _
      have hparse' := split' ▸ Header.parse?_append header' _
      cases hparse.symm.trans hparse'
      exact ⟨rfl, .inr ⟨_, _, rfl⟩⟩
    | closed _ admitted => exact absurd admitted (not_admitted split header excess)
  | closed incomplete admitted =>
    cases hother with
    | packet split whole _ => exact absurd (split ▸ incomplete) (whole.not_incomplete _)
    | excess split header excess => exact absurd admitted (not_admitted split header excess)
    | closed _ _ => exact ⟨rfl, .inl rfl⟩

include hcut in
/-- Behind a packet that is too large the same is left if it is as much. -/
theorem Cut.left_eq (hother : Cut s typeId size limit bytes reply left)
    (hgone : ∀ count max, result = .error (.packetTooLarge count max) → rest.length = left.length) :
    rest = left := by
  obtain ⟨-, hsame | ⟨count, max, hresult⟩⟩ := hcut.agree hother
  · exact hsame
  · have hlength := hgone count max hresult
    exact (List.suffix_of_suffix_length_le hcut.suffix hother.suffix hlength.le).eq_of_length hlength

end Cut

/-! ## One call -/

/-- The buffered header announces too many records, or it is admitted. -/
theorem excess?_cases (r : Reader) :
    (r.excess? = none ∧ Admitted r.config.maxRecords r.buffer) ∨
      ∃ h, Header.parse? r.buffer = some h ∧ r.config.maxRecords < h.count.toNat ∧
        r.excess? = some h.count.toNat := by
  unfold excess? Admitted
  cases hparse : Header.parse? r.buffer with
  | none => simp
  | some h =>
    by_cases hexcess : r.config.maxRecords < h.count.toNat
    · exact .inr ⟨h, rfl, hexcess, if_pos hexcess⟩
    · refine .inl ⟨if_neg hexcess, ?_⟩
      rintro h' ⟨⟩
      exact Nat.not_lt.mp hexcess

/-- **A packet that is too large takes everything with it** that is in the buffer. -/
theorem readPacket_of_excess {count : Nat} (hexcess : r.excess? = some count) :
    r.readPacket = (.error (.packetTooLarge count r.config.maxRecords),
      { r with buffer := [], stats := r.stats.countError }) := by
  apply readPacket_of_verdict
  unfold decodeBuffered
  rw [hexcess]
  rfl

/-- **Filling the buffer** changes nothing about what is to be had, or it was all there. -/
theorem Carries.fill (hcarries : Carries s typeId limit r bytes) {filling : Except FrameError Unit}
    (hfill : r.fill = (filling, next)) :
    filling = .ok () ∧ Carries s typeId limit next bytes ∨
      filling = .error .connectionClosed ∧ r.buffer = bytes := by
  obtain ⟨hschema, htypeId, hlimit, houtlook⟩ := hcarries
  rcases hread : r.stream.readSteadily readSize with ⟨outcome, stream⟩
  have hended : (r.stream.outlook IoErrorKind.isInterruption).ending = .ended :=
    congrArg Outlook.ending houtlook
  have hstream := ReadScript.outlook_readSteadily (by rw [hended]; nofun) hread
  unfold Reader.fill at hfill
  rw [hread] at hfill
  rw [Reader.outlook, hstream] at houtlook
  rw [hstream] at hended
  cases outcome with
  | delivered piece =>
    cases hfill
    refine .inl ⟨rfl, hschema, htypeId, hlimit, ?_⟩
    rw [← houtlook]
    simp [Reader.outlook, ReadOutcome.goesOn, ReadOutcome.bytes]
  | ended =>
    cases hfill
    have hall : r.buffer = bytes := by
      simpa [ReadOutcome.goesOn] using congrArg Outlook.bytes houtlook
    exact .inr ⟨rfl, hall⟩
  | failed kind =>
    exfalso
    by_cases hpasses : IoErrorKind.isInterruption kind = true
    · obtain rfl : kind = .interrupted := by
        simpa [IoErrorKind.isInterruption] using hpasses
      have hlasting := ReadScript.failsForever_of_readSteadily hread
      rw [if_pos (by exact hpasses), ReadScript.outlook_of_failsForever hlasting hpasses] at hended
      cases hended
    · rw [if_neg (by exact hpasses)] at hended
      cases hended

/-- What is taken off the front of the buffer is taken off what is to be had. -/
theorem Carries.take (hcarries : Carries s typeId limit r bytes) {front tail : Bytes}
    (hbuffer : r.buffer = front ++ tail) (stats : ReaderStats) :
    ∃ rest, bytes = front ++ rest ∧ Carries s typeId limit { r with buffer := tail, stats } rest := by
  obtain ⟨hschema, htypeId, hlimit, houtlook⟩ := hcarries
  have hbytes := congrArg Outlook.bytes houtlook
  have hended := congrArg Outlook.ending houtlook
  simp only [Reader.outlook, hbuffer, List.append_assoc] at hbytes hended
  exact ⟨_, hbytes.symm, hschema, htypeId, hlimit, congrArg (Outlook.mk _) hended⟩

/-- **A call for a packet** answers what the bytes to be had say, and goes on with what is left of
them until the stream has ended. A packet that is too large leaves nothing in the buffer. -/
theorem Carries.readPacket (hm : s.message? typeId = some m)
    (hcarries : Carries s typeId limit r bytes) (hread : r.readPacket = (result, next)) :
    ∃ rest, Cut s typeId m.wireSize limit bytes result rest ∧
      (result ≠ .error .connectionClosed → Carries s typeId limit next rest) ∧
      ∀ count max, result = .error (.packetTooLarge count max) → next.buffer = [] := by
  induction hsize : r.stream.size using Nat.strongRecOn generalizing r with
  | ind n ih =>
    obtain ⟨rfl, rfl, rfl, houtlook⟩ := id hcarries
    rcases r.excess?_cases with ⟨hnone, hadmitted⟩ | ⟨h, hparse, hexcess, hsome⟩
    · rcases Packet.incomplete_or_whole m.wireSize r.buffer with
        hincomplete | ⟨p, tail, hp, hbuffer⟩
      · -- The only case that reads on, from a stream that gets smaller.
        rw [readPacket_of_decodeBuffered_none (decodeBuffered_incomplete hm hnone hincomplete)]
          at hread
        rcases hfill : r.fill with ⟨filling, filled⟩
        rw [hfill] at hread
        rcases hcarries.fill hfill with ⟨rfl, hfilled⟩ | ⟨rfl, hall⟩
        · exact ih _ (hsize ▸ size_fill_lt hfill) hfilled hread rfl
        · cases hread
          rw [hall] at hincomplete hadmitted
          exact ⟨bytes, .closed hincomplete hadmitted, fun hopen => absurd rfl hopen, nofun⟩
      · obtain ⟨stats, hdecode⟩ := decodeBuffered_whole hm hnone hbuffer hp
        rw [readPacket_of_verdict hdecode] at hread
        cases hread
        obtain ⟨rest, hsplit, hafter⟩ := hcarries.take hbuffer stats
        rw [hbuffer] at hadmitted
        have hfits := hsplit ▸ hp.admitted hadmitted rest
        refine ⟨rest, .packet hsplit hp hfits, fun _ => hafter, fun count max hresult => ?_⟩
        cases hverdict : Packet.decode r.schema r.typeId p <;> rw [hverdict] at hresult <;>
          cases hresult
    · rw [readPacket_of_excess hsome] at hread
      cases hread
      obtain ⟨rest, hsplit, hafter⟩ :=
        hcarries.take (List.append_nil r.buffer).symm r.stats.countError
      exact ⟨rest, .excess hsplit hparse hexcess, fun _ => hafter, fun _ _ _ => rfl⟩

/-! ## Calls one after the other -/

/-- The reader after so many calls for a packet. -/
def after (r : Reader) : Nat → Reader
  | 0 => r
  | n + 1 => r.readPacket.2.after n

/-- What is answered after so many calls for a packet. -/
def answer (r : Reader) (n : Nat) : Except FrameError Packet := (r.after n).readPacket.1

/-- How many bytes are still to be had. -/
def remaining (r : Reader) : Nat := (r.outlook IoErrorKind.isInterruption).bytes.length

theorem after_succ (r : Reader) (n : Nat) : r.after (n + 1) = (r.after n).readPacket.2 := by
  induction n generalizing r with
  | zero => rfl
  | succ n ih => exact ih r.readPacket.2

theorem Carries.remaining (hcarries : Carries s typeId limit r bytes) :
    r.remaining = bytes.length := by
  rw [Reader.remaining, hcarries.outlook]

/-- **The end is reached**, with one call for each byte at the most. -/
theorem Carries.exists_closed (hm : s.message? typeId = some m)
    (hcarries : Carries s typeId limit r bytes) : ∃ n ≤ bytes.length,
      r.answer n = .error .connectionClosed ∧ ∀ i < n, r.answer i ≠ .error .connectionClosed := by
  induction hsize : bytes.length using Nat.strongRecOn generalizing r bytes with
  | ind size ih =>
    obtain ⟨rest, hcut, hnext, -⟩ := hcarries.readPacket hm rfl
    by_cases hclosed : r.readPacket.1 = .error .connectionClosed
    · exact ⟨0, Nat.zero_le _, hclosed, nofun⟩
    have hless : rest.length < size := hsize ▸ hcut.length_lt hclosed
    obtain ⟨n, hn, hlast, hbefore⟩ := ih _ hless (hnext hclosed) rfl
    refine ⟨n + 1, by omega, hlast, fun i hi => ?_⟩
    cases i with
    | zero => exact hclosed
    | succ i => exact hbefore i (Nat.lt_of_succ_lt_succ hi)

/-- **Two readers stay together** as long as there is no end and what they throw away behind packets
that are too large leaves as much to both. -/
theorem Carries.lockstep (hm : s.message? typeId = some m) (ha : Carries s typeId limit a bytes)
    (hb : Carries s typeId limit b bytes) {n : Nat}
    (hopen : ∀ i < n, a.answer i ≠ .error .connectionClosed)
    (hgone : ∀ i < n, ∀ count max, a.answer i = .error (.packetTooLarge count max) →
      (a.after (i + 1)).remaining = (b.after (i + 1)).remaining) :
    ∃ rest, rest <:+ bytes ∧ Carries s typeId limit (a.after n) rest ∧
      Carries s typeId limit (b.after n) rest := by
  induction n generalizing a b bytes with
  | zero => exact ⟨bytes, List.suffix_rfl, ha, hb⟩
  | succ n ih =>
    obtain ⟨rest, hcut, hnext, -⟩ := ha.readPacket hm rfl
    obtain ⟨left, hcut', hnext', -⟩ := hb.readPacket hm rfl
    have hclosed := hopen 0 n.succ_pos
    have hclosed' : b.readPacket.1 ≠ .error .connectionClosed := (hcut.agree hcut').1 ▸ hclosed
    obtain rfl : rest = left := by
      refine hcut.left_eq hcut' fun count max hexcess => ?_
      rw [← (hnext hclosed).remaining, ← (hnext' hclosed').remaining]
      exact hgone 0 n.succ_pos count max hexcess
    obtain ⟨last, hlast, hboth⟩ := ih (hnext hclosed) (hnext' hclosed')
      (fun i hi => hopen (i + 1) (Nat.succ_lt_succ hi))
      fun i hi => hgone (i + 1) (Nat.succ_lt_succ hi)
    exact ⟨last, hlast.trans hcut.suffix, hboth⟩

/-- **Every answer is what the bytes say** that are still to be had, and a packet that is too large
empties the buffer. -/
theorem Carries.answer (hm : s.message? typeId = some m) (hcarries : Carries s typeId limit r bytes)
    {n : Nat} (hopen : ∀ i < n, r.answer i ≠ .error .connectionClosed) :
    (∃ rest left, rest <:+ bytes ∧ rest.length = (r.after n).remaining ∧
      Cut s typeId m.wireSize limit rest (r.answer n) left) ∧
    ∀ count max, r.answer n = .error (.packetTooLarge count max) →
      (r.after (n + 1)).buffer = [] := by
  obtain ⟨rest, hsuffix, hafter, -⟩ := hcarries.lockstep hm hcarries hopen fun _ _ _ _ _ => rfl
  obtain ⟨left, hcut, -, hbuffer⟩ := hafter.readPacket hm rfl
  rw [after_succ]
  exact ⟨⟨rest, left, hsuffix, hafter.remaining.symm, hcut⟩, hbuffer⟩

theorem carries_new {script : ReadScript}
    (houtlook : script.outlook IoErrorKind.isInterruption = ⟨bytes, .ended⟩) (s : Schema)
    (typeId : UInt16) (config : ChannelConfig) :
    Carries s typeId config.maxRecords (new script s typeId config) bytes :=
  ⟨rfl, rfl, rfl, houtlook⟩

/-- **What is answered does not depend on the fragments**, up to the first packet that is too large.
Two streams hand out the same bytes in any pieces and with any interruptions, and then they end. Of new
readers on them, with any limit:

* calls for packets reach the end, with one call for each byte at the most;
* until then every answer is what the bytes say that are still to be had;
* a packet that is too large empties the buffer, so what it takes with it is all that was handed out;
* both readers give the same answers, for as long as every packet that was too large has left as many
  bytes on both streams. -/
theorem answer_congr (hm : s.message? typeId = some m) (config : ChannelConfig)
    {first second : ReadScript}
    (hfirst : first.outlook IoErrorKind.isInterruption = ⟨bytes, .ended⟩)
    (hsecond : second.outlook IoErrorKind.isInterruption = ⟨bytes, .ended⟩) :
    (∃ n ≤ bytes.length, (new first s typeId config).answer n = .error .connectionClosed ∧
      ∀ i < n, (new first s typeId config).answer i ≠ .error .connectionClosed) ∧
    ∀ n, (∀ i < n, (new first s typeId config).answer i ≠ .error .connectionClosed) →
      ((∃ rest left, rest <:+ bytes ∧
          rest.length = ((new first s typeId config).after n).remaining ∧
          Cut s typeId m.wireSize config.maxRecords rest
            ((new first s typeId config).answer n) left) ∧
        ∀ count max, (new first s typeId config).answer n = .error (.packetTooLarge count max) →
          ((new first s typeId config).after (n + 1)).buffer = []) ∧
      ((∀ i < n, ∀ count max,
          (new first s typeId config).answer i = .error (.packetTooLarge count max) →
          ((new first s typeId config).after (i + 1)).remaining =
            ((new second s typeId config).after (i + 1)).remaining) →
        (new first s typeId config).answer n = (new second s typeId config).answer n) := by
  have ha := carries_new hfirst s typeId config
  have hb := carries_new hsecond s typeId config
  refine ⟨ha.exists_closed hm, fun n hopen => ⟨ha.answer hm hopen, fun hgone => ?_⟩⟩
  obtain ⟨rest, -, hafter, hafter'⟩ := ha.lockstep hm hb hopen hgone
  obtain ⟨_, hcut, -⟩ := hafter.readPacket hm rfl
  obtain ⟨_, hcut', -⟩ := hafter'.readPacket hm rfl
  exact (hcut.agree hcut').1

/-! ## Where the fragments show -/

/-- **A piece that begins with too large a packet is lost as a whole**, and what is to be had are the
other pieces. -/
theorem new_of_excess (hm : s.message? typeId = some m) {config : ChannelConfig} {piece : Bytes}
    {pieces : List Bytes} {h : Header} (hparse : Header.parse? piece = some h)
    (hexcess : config.maxRecords < h.count.toNat) (hroom : piece.length ≤ readSize)
    (hpieces : ∀ p ∈ pieces, p ≠ []) :
    (new (.ofPieces (piece :: pieces)) s typeId config).answer 0 =
        .error (.packetTooLarge h.count.toNat config.maxRecords) ∧
      Carries s typeId config.maxRecords
        ((new (.ofPieces (piece :: pieces)) s typeId config).after 1) pieces.flatten := by
  obtain ⟨b, bytes, rfl⟩ : ∃ b bytes, piece = b :: bytes :=
    List.exists_cons_of_ne_nil (by rintro rfl; cases hparse)
  let filled : Reader := ⟨⟨pieces.map .deliver, 1, ⟨false, []⟩⟩, b :: bytes, s, typeId, config, .zero⟩
  have hfill : (new (.ofPieces ((b :: bytes) :: pieces)) s typeId config).fill = (.ok (), filled) := by
    simp [fill, new, ReadScript.ofPieces, ReadScript.readSteadily, ReadScript.readSteadily.go,
      ReadScript.read, List.take_of_length_le hroom, List.drop_of_length_le hroom, filled]
  have hfilled : filled.excess? = some h.count.toNat := by
    simp only [excess?, filled, hparse]
    exact if_pos hexcess
  have hread := readPacket_of_decodeBuffered_none (decodeBuffered_incomplete
    (r := new (.ofPieces ((b :: bytes) :: pieces)) s typeId config) hm rfl Packet.incomplete_nil)
  rw [hfill] at hread
  have hanswer := hread.trans (readPacket_of_excess hfilled)
  refine ⟨congrArg Prod.fst hanswer, ?_⟩
  have hafter : (new (.ofPieces ((b :: bytes) :: pieces)) s typeId config).after 1 =
      { filled with buffer := [], stats := filled.stats.countError } := congrArg Prod.snd hanswer
  rw [hafter]
  exact ⟨rfl, rfl, rfl, ReadScript.outlook_pieces hpieces rfl⟩

/-- A header that announces two records. -/
def pairHeader : Header := ⟨.current, .none, 2⟩

/-- A reader of drive commands that admits one record, on a stream that delivers these pieces. -/
def single (pieces : List Bytes) : Reader :=
  new (.ofPieces pieces) .builtin DriveCommand.typeId ⟨1, none⟩

/-- A piece that begins with the header of two records is lost to it. -/
theorem single_of_pair (piece : Bytes) (pieces : List Bytes)
    (hparse : Header.parse? piece = some pairHeader) (hroom : piece.length ≤ readSize)
    (hpieces : ∀ p ∈ pieces, p ≠ []) :
    (single (piece :: pieces)).answer 0 = .error (.packetTooLarge 2 1) ∧
      Carries .builtin DriveCommand.typeId 1 ((single (piece :: pieces)).after 1) pieces.flatten :=
  new_of_excess rfl hparse (by decide) hroom hpieces

theorem answer_congr_drive :
    (single [pairHeader.toBytes, Packet.drivePacket]).answer 0 = .error (.packetTooLarge 2 1) ∧
      (single [pairHeader.toBytes, Packet.drivePacket]).answer 1 =
        (single [pairHeader.toBytes, Packet.drivePacket.take 7, Packet.drivePacket.drop 7]).answer 1 ∧
      ∃ n ≤ 24, (single [pairHeader.toBytes, Packet.drivePacket]).answer n =
        .error .connectionClosed := by
  obtain ⟨hexcess, hleft⟩ := single_of_pair pairHeader.toBytes [Packet.drivePacket] rfl (by decide)
    (by decide)
  obtain ⟨-, hleft'⟩ := single_of_pair pairHeader.toBytes
    [Packet.drivePacket.take 7, Packet.drivePacket.drop 7] rfl (by decide) (by decide)
  have hopen : ∀ i < 1, (single [pairHeader.toBytes, Packet.drivePacket]).answer i ≠
      .error .connectionClosed := by
    intro i hi
    obtain rfl : i = 0 := by omega
    rw [hexcess]
    nofun
  have hm : Schema.builtin.message? DriveCommand.typeId = some DriveCommand.message := rfl
  have hfirst : (ReadScript.ofPieces [pairHeader.toBytes, Packet.drivePacket]).outlook
      IoErrorKind.isInterruption = ⟨pairHeader.toBytes ++ Packet.drivePacket, .ended⟩ := rfl
  have hsecond : (ReadScript.ofPieces
      [pairHeader.toBytes, Packet.drivePacket.take 7, Packet.drivePacket.drop 7]).outlook
      IoErrorKind.isInterruption = ⟨pairHeader.toBytes ++ Packet.drivePacket, .ended⟩ := rfl
  obtain ⟨⟨n, hn, hclosed, -⟩, hanswers⟩ := answer_congr hm ⟨1, none⟩ hfirst hsecond
  refine ⟨hexcess, (hanswers 1 hopen).2 fun i hi count max _ => ?_, n, hn, hclosed⟩
  obtain rfl : i = 0 := by omega
  exact hleft.remaining.trans hleft'.remaining.symm

/-- What is answered depends on the fragments behind a packet that is too large. -/
theorem not_forall_answer : ¬ ∀ (s : Schema) (typeId : UInt16) (m : Message)
    (config : ChannelConfig) (first second : List Bytes), s.message? typeId = some m →
    (∀ p ∈ first, p ≠ []) → (∀ p ∈ second, p ≠ []) → first.flatten = second.flatten →
    ∀ n, (∀ i < n, (new (.ofPieces first) s typeId config).answer i ≠ .error .connectionClosed) →
      (new (.ofPieces first) s typeId config).answer n =
        (new (.ofPieces second) s typeId config).answer n := by
  intro hall
  obtain ⟨hexcess, hnothing⟩ := single_of_pair (pairHeader.toBytes ++ Packet.drivePacket) [] rfl
    (by decide) nofun
  obtain ⟨-, hpacket⟩ := single_of_pair pairHeader.toBytes [Packet.drivePacket] rfl (by decide)
    (by decide)
  have hsame := hall .builtin DriveCommand.typeId _ ⟨1, none⟩
    [pairHeader.toBytes ++ Packet.drivePacket] [pairHeader.toBytes, Packet.drivePacket]
    rfl (by decide) (by decide) rfl 1 (by
      intro i hi
      obtain rfl : i = 0 := by omega
      exact hexcess ▸ nofun)
  -- The first stream has nothing left, the second one the drive packet.
  obtain ⟨_, hcut, -⟩ := hnothing.readPacket rfl rfl
  obtain ⟨_, hcut', -⟩ := hpacket.readPacket rfl rfl
  obtain ⟨hclosed, -⟩ := hcut.agree (.closed Packet.incomplete_nil nofun)
  obtain ⟨hdecoded, -⟩ := hcut'.agree (.packet (p := Packet.drivePacket) rfl ⟨_, rfl, rfl⟩ (by
    rintro h ⟨⟩
    decide))
  have hrefused := hdecoded.symm.trans (hsame.symm.trans hclosed)
  cases hverdict : Packet.decode .builtin DriveCommand.typeId Packet.drivePacket <;>
    rw [hverdict] at hrefused <;> cases hrefused

end Reader

end CommandLink
