import CommandLink.Proofs.Stream.Account

/-!
# What is to be had from a reader

What a reader has buffered and what its stream still hands out are the bytes that are to be had from
it (`Reader.outlook`). A call that takes bytes takes them off the front of that (`Yields`).

* `readRaw_handout`: raw bytes, seen by one who passes over failures of some kinds.
* `readPacket_whole`, `readPacket_incomplete`: the next packet, and the end of the stream.
-/

namespace CommandLink

variable {passes : IoErrorKind → Bool} {kind : IoErrorKind}

namespace ReadScript

variable {s t : ReadScript} {outcome : ReadOutcome}

/-- A stream does not end with a failure that is passed over. -/
theorem ending_ne_failed (hpasses : passes kind = true) (s : ReadScript) :
    (s.outlook passes).ending ≠ .failed kind := by
  unfold outlook
  induction s.pending with
  | nil =>
    intro h
    cases h
  | cons event rest ih =>
    cases event with
    | finish =>
      intro h
      cases h
    | deliver bytes =>
      cases bytes with
      | nil =>
        intro h
        cases h
      | cons b bytes => exact ih
    | fail met =>
      rw [outlookOf]
      split
      · exact ih
      · intro h
        cases h
        contradiction
    | failForever met =>
      rw [outlookOf]
      split
      · intro h
        cases h
      · intro h
        cases h
        contradiction

/-- Nothing is to be had from a stream that fails for ever in a way that is passed over. -/
theorem outlook_of_failsForever (hlasting : s.failsForever kind = true)
    (hpasses : passes kind = true) : s.outlook passes = ⟨[], .stalled⟩ := by
  unfold failsForever at hlasting
  split at hlasting
  · rename_i lasting rest hpending
    obtain rfl : lasting = kind := by simpa using hlasting
    rw [outlook, hpending, outlookOf, if_pos hpasses]
  · cases hlasting

/-- A steady read that is interrupted is interrupted for ever. -/
theorem failsForever_of_readSteadily {room : Nat}
    (hread : s.readSteadily room = (.failed .interrupted, t)) :
    t.failsForever .interrupted = true := by
  suffices h : ∀ pending calls,
      readSteadily.go s room pending calls = (.failed .interrupted, t) →
      t.failsForever .interrupted = true from h s.pending s.calls hread
  intro pending calls hgo
  fun_induction readSteadily.go s room pending calls with
  | case1 calls rest ih => exact ih hgo
  | case2 calls pending hother =>
    unfold read at hgo
    split at hgo <;> rename_i hpending <;> cases hgo
    · exact absurd hpending (hother _)
    · rfl

/-- A steady read hands out the front of the outlook, as one call does. -/
theorem outlook_readSteadily (hinterrupted : (s.outlook passes).ending ≠ .failed .interrupted)
    (hread : s.readSteadily Reader.readSize = (outcome, t)) : s.outlook passes =
      if outcome.goesOn passes then
        ⟨outcome.bytes ++ (t.outlook passes).bytes, (t.outlook passes).ending⟩
      else ⟨[], outcome.ending⟩ := by
  suffices h : ∀ pending calls, (outlookOf passes pending).ending ≠ .failed .interrupted →
      readSteadily.go s Reader.readSize pending calls = (outcome, t) →
      outlookOf passes pending =
        if outcome.goesOn passes then
          ⟨outcome.bytes ++ (t.outlook passes).bytes, (t.outlook passes).ending⟩
        else ⟨[], outcome.ending⟩ from h s.pending s.calls hinterrupted hread
  intro pending calls hinterrupted hgo
  fun_induction readSteadily.go s Reader.readSize pending calls with
  | case1 calls rest ih =>
    rw [outlookOf] at hinterrupted ⊢
    split at hinterrupted
    · rename_i hpasses
      rw [if_pos hpasses]
      exact ih hinterrupted hgo
    · exact absurd rfl hinterrupted
  | case2 calls pending hother => exact outlook_read hgo

end ReadScript

namespace Reader

/-- What is to be had from a reader before its stream ends, or fails in a way that is not passed
over. -/
def outlook (r : Reader) (passes : IoErrorKind → Bool) : Outlook :=
  ⟨r.buffer ++ (r.stream.outlook passes).bytes, (r.stream.outlook passes).ending⟩

/-- These bytes come off the front of what is to be had, and nothing else changes. -/
structure Yields (passes : IoErrorKind → Bool) (r : Reader) (taken : Bytes) (next : Reader) :
    Prop where
  bytes : (r.outlook passes).bytes = taken ++ (next.outlook passes).bytes
  ending : (r.outlook passes).ending = (next.outlook passes).ending
  schema : next.schema = r.schema
  config : next.config = r.config
  responsive : r.stream.Responsive → next.stream.Responsive

variable {r next last : Reader} {taken more : Bytes}

theorem Yields.trans (hfirst : Yields passes r taken next) (hsecond : Yields passes next more last) :
    Yields passes r (taken ++ more) last where
  bytes := by rw [hfirst.bytes, hsecond.bytes, List.append_assoc]
  ending := hfirst.ending.trans hsecond.ending
  schema := hsecond.schema.trans hfirst.schema
  config := hsecond.config.trans hfirst.config
  responsive := fun h => hsecond.responsive (hfirst.responsive h)

/-- What read calls that went on took. -/
theorem Balanced.yields {reads : List ReadOutcome} (hbalanced : Balanced r reads taken next)
    (hgoes : ∀ o ∈ reads, o.goesOn passes = true) : Yields passes r taken next where
  bytes := by
    simp only [outlook]
    rw [hbalanced.stream.outlook hgoes, ← List.append_assoc, hbalanced.bytes, List.append_assoc]
  ending := by
    simp only [outlook]
    rw [hbalanced.stream.outlook hgoes]
  schema := hbalanced.schema
  config := hbalanced.config
  responsive := hbalanced.stream.responsive

/-- How a call for raw bytes goes with what is to be had. -/
inductive Handout (passes : IoErrorKind → Bool) (r : Reader) (limit : Nat) :
    Except FrameError Bytes → Reader → Prop where
  | bytes {taken : Bytes} {next : Reader} (fits : taken.length ≤ limit)
      (yields : Yields passes r taken next) : Handout passes r limit (.ok taken) next
  | passed {kind : IoErrorKind} {next : Reader} (passed : passes kind = true)
      (empty : next.buffer = []) (lasting : kind = .interrupted → next.stream.failsForever kind = true)
      (yields : Yields passes r [] next) : Handout passes r limit (.error (.io kind)) next
  | ended {next : Reader} (nothing : r.outlook passes = ⟨[], .ended⟩) :
      Handout passes r limit (.error .connectionClosed) next
  | failed {kind : IoErrorKind} {next : Reader} (nothing : r.outlook passes = ⟨[], .failed kind⟩) :
      Handout passes r limit (.error (.io kind)) next

/-- **Raw bytes come off the front of what is to be had**, and there are none only if the stream
stops or a failure is passed over. -/
theorem readRaw_handout (hinterrupted : (r.outlook passes).ending ≠ .failed .interrupted) {limit : Nat}
    {result : Except FrameError Bytes} (hraw : r.readRaw limit = (result, next)) :
    Handout passes r limit result next := by
  have htake (filled : Reader) (hfilled : Yields passes r [] filled) : Handout passes r limit
      (.ok (filled.buffer.take limit)) { filled with buffer := filled.buffer.drop limit } := by
    refine .bytes ?_ ⟨?_, hfilled.ending, hfilled.schema, hfilled.config, hfilled.responsive⟩
    · rw [List.length_take]
      exact Nat.min_le_left ..
    · rw [hfilled.bytes]
      simp only [outlook]
      rw [List.nil_append, ← List.append_assoc, List.take_append_drop]
  have hself : Yields passes r [] r := ⟨rfl, rfl, rfl, rfl, id⟩
  unfold readRaw at hraw
  by_cases hzero : limit = 0
  · rw [if_pos hzero] at hraw
    cases hraw
    exact .bytes (Nat.zero_le _) hself
  rw [if_neg hzero] at hraw
  simp only at hraw
  by_cases hempty : r.buffer = []
  · rcases hread : r.stream.readSteadily readSize with ⟨outcome, stream⟩
    have houtlook := ReadScript.outlook_readSteadily hinterrupted hread
    have hfilled (hgoes : outcome.goesOn passes = true) :
        Yields passes r [] { r with stream, buffer := r.buffer ++ outcome.bytes } := by
      rw [if_pos hgoes] at houtlook
      refine ⟨?_, ?_, rfl, rfl, fun hresponsive => ?_⟩
      · simp only [outlook, houtlook, List.nil_append, List.append_assoc]
      · simp only [outlook, houtlook]
      · obtain ⟨_, -, -, hreads⟩ := ReadScript.exists_reads_of_readSteadily hresponsive hread
        exact hreads.responsive hresponsive
    have hnothing (hgoes : outcome.goesOn passes ≠ true) :
        r.outlook passes = ⟨[], outcome.ending⟩ := by
      rw [if_neg hgoes] at houtlook
      rw [outlook, hempty, houtlook, List.nil_append]
    rw [if_pos (List.isEmpty_iff.mpr hempty), fill, hread] at hraw
    cases outcome with
    | delivered bytes =>
      cases hraw
      exact htake _ (hfilled rfl)
    | ended =>
      cases hraw
      exact .ended (hnothing Bool.false_ne_true)
    | failed kind =>
      cases hraw
      by_cases hpasses : passes kind = true
      · have hyields := hfilled hpasses
        rw [ReadOutcome.bytes, List.append_nil] at hyields
        refine .passed hpasses hempty ?_ hyields
        rintro rfl
        exact ReadScript.failsForever_of_readSteadily hread
      · exact .failed (hnothing hpasses)
  · rw [if_neg (by simpa using hempty)] at hraw
    cases hraw
    exact htake r hself

/-! ## Packets -/

section Packets

variable {m : Message} {p rest : Bytes} {result : Except FrameError Packet}
  (hm : r.schema.message? r.typeId = some m) (hlimit : Header.maxCount ≤ r.config.maxRecords)
  (hresponsive : r.stream.Responsive)

include hm hlimit hresponsive

/-- **The next packet** comes off the front of what is to be had with its verdict, or that is an
incomplete packet and the answer tells how the stream ends. -/
theorem readPacket_outlook (hread : r.readPacket = (result, next)) :
    (∃ taken, Packet.Whole m.wireSize taken ∧ Yields IoErrorKind.isInterruption r taken next ∧
      result = (Packet.decode r.schema r.typeId taken).mapError .decode) ∨
    (Packet.Incomplete m.wireSize (r.outlook IoErrorKind.isInterruption).bytes ∧
      ((r.outlook IoErrorKind.isInterruption).ending = .ended →
        result = .error .connectionClosed)) := by
  obtain ⟨reads, taken, hbalanced, htaken, hneeded⟩ := readPacket_account hm hlimit hresponsive hread
  cases htaken with
  | whole steady whole verdict =>
    exact .inl ⟨taken, whole, hbalanced.yields steady, verdict⟩
  | none stops =>
    cases stops with
    | closed before =>
      have houtlook := hbalanced.stream.outlook_of_stop before Bool.false_ne_true
      refine .inr ⟨?_, fun _ => rfl⟩
      rw [outlook, houtlook]
      exact hneeded.incomplete
    | failed before lasting =>
      have houtlook := hbalanced.stream.outlook_of_stop before (by simpa [ReadOutcome.goesOn,
        IoErrorKind.isInterruption] using lasting)
      refine .inr ⟨?_, ?_⟩
      · rw [outlook, houtlook]
        exact hneeded.incomplete
      · rw [outlook, houtlook]
        intro h
        cases h

/-- The verdict on the whole packet that is to be had next. -/
theorem readPacket_whole (hp : Packet.Whole m.wireSize p)
    (hbytes : (r.outlook IoErrorKind.isInterruption).bytes = p ++ rest) :
    r.readPacket.1 = (Packet.decode r.schema r.typeId p).mapError .decode ∧
      Yields IoErrorKind.isInterruption r p r.readPacket.2 := by
  rcases readPacket_outlook hm hlimit hresponsive rfl with
    ⟨taken, htaken, hyields, hverdict⟩ | ⟨hincomplete, -⟩
  · obtain ⟨rfl, -⟩ := htaken.append_inj hp (hyields.bytes.symm.trans hbytes)
    exact ⟨hverdict, hyields⟩
  · rw [hbytes] at hincomplete
    exact absurd hincomplete (hp.not_incomplete rest)

/-- The end of a stream that has ended in the middle of a packet, or behind one. -/
theorem readPacket_closed
    (hincomplete : Packet.Incomplete m.wireSize (r.outlook IoErrorKind.isInterruption).bytes)
    (hended : (r.outlook IoErrorKind.isInterruption).ending = .ended) :
    r.readPacket.1 = .error .connectionClosed := by
  rcases readPacket_outlook hm hlimit hresponsive rfl with
    ⟨taken, htaken, hyields, -⟩ | ⟨-, hclosed⟩
  · rw [hyields.bytes] at hincomplete
    exact absurd hincomplete (htaken.not_incomplete _)
  · exact hclosed hended

end Packets

end Reader

end CommandLink
