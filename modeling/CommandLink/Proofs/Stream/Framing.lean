import CommandLink.Proofs.Packet.RoundTrip
import CommandLink.Proofs.Stream.Writes

/-!
# What a writer leaves on a stream

Calls of any kind on one writer, one after the other (`Request`, `Writer.submit`), each with its
account: which bytes of the request the stream took and which it did not (`Call.Accounted`). The
writer forgets what was not taken. So a packet that is cut short stays so, and the next call goes on
right behind it.

* `framed_iff_unbroken`: every run has such accounts, and the stream has taken whole packets and at
  most one incomplete packet behind them (`Framed`) exactly as long as no call has taken a byte behind
  one that was cut short. That is so if nothing is sent once the stream has refused to go on.
* `not_forall_framed`: a packet behind one that timed out in the middle.
-/

namespace CommandLink

namespace Writer

/-- What a writer is asked to send. -/
inductive Request where
  | packet (typeId : UInt16) (records : List Record) (flags : Flags)
  | commands (commands : List DriveCommand) (flags : Flags)
  /-- Bytes that are already framed. -/
  | raw (bytes : Bytes)

/-- The answer to a request. -/
def submit (w : Writer) : Request → Except FrameError Unit × Writer
  | .packet typeId records flags => w.writePacket typeId records flags
  | .commands commands flags => w.writeCommands commands flags
  | .raw bytes => w.writeRaw bytes

/-- A batch as a packet, or why the writer refuses it. -/
def pack (w : Writer) (typeId : UInt16) (records : List Record) (flags : Flags) :
    Except EncodeError Bytes :=
  if w.config.maxRecords < records.length then
    .error (.batchTooLarge records.length w.config.maxRecords)
  else Packet.encode w.schema typeId records flags

/-- The bytes that a request stands for, or why the writer refuses it. -/
def encoding (w : Writer) : Request → Except EncodeError Bytes
  | .packet typeId records flags => w.pack typeId records flags
  | .commands commands flags =>
    w.pack DriveCommand.typeId (commands.map DriveCommand.toRecord) flags
  | .raw bytes => .ok bytes

/-- How a request ended, and what the stream took of its bytes and what not. -/
inductive Settled (w : Writer) (request : Request) : Except FrameError Unit → Bytes → Bytes → Prop
  where
  | refused {cause : EncodeError} (encoding : w.encoding request = .error cause) :
      Settled w request (.error (.encode cause)) [] []
  | sent {bytes : Bytes} (encoding : w.encoding request = .ok bytes) :
      Settled w request (.ok ()) bytes []
  | failed {cause : FrameError} {taken left : Bytes}
      (encoding : w.encoding request = .ok (taken ++ left)) (lasting : cause.Lasting) :
      Settled w request (.error cause) taken left

/-- One call on a writer with its account. -/
structure Call where
  before : Writer
  request : Request
  reply : Except FrameError Unit
  /-- The bytes of the request that the stream took. -/
  taken : Bytes
  /-- The bytes of the request behind them, which nobody has after the call. -/
  left : Bytes
  after : Writer

/-- The account of a call is right. -/
structure Call.Accounted (c : Call) : Prop where
  submitted : c.before.submit c.request = (c.reply, c.after)
  accepted : c.after.stream.accepted = c.before.stream.accepted ++ c.taken
  settled : Settled c.before c.request c.reply c.taken c.left
  schema : c.after.schema = c.before.schema
  config : c.after.config = c.before.config

/-- Calls that follow each other, every one of them accounted for. -/
inductive Ledger : Writer → List Call → Prop where
  | nil (w : Writer) : Ledger w []
  | cons {c : Call} {calls : List Call} (call : c.Accounted) (more : Ledger c.after calls) :
      Ledger c.before (c :: calls)

/-- **Bytes that are made up of packets**: those that the stream took whole, in call order, one for
every call that succeeded, and at most one that it did not take whole, as the very last bytes. -/
inductive Framed : List Call → Bytes → Prop where
  | nil : Framed [] []
  | whole {c : Call} {calls : List Call} {bytes : Bytes}
      (packet : c.before.encoding c.request = .ok c.taken) (more : Framed calls bytes) :
      Framed (c :: calls) (c.taken ++ bytes)
  | nothing {c : Call} {calls : List Call} {bytes : Bytes} (failed : c.reply ≠ .ok ())
      (none : c.taken = []) (more : Framed calls bytes) : Framed (c :: calls) bytes
  | cut {c : Call} {calls : List Call} {left : Bytes} (failed : c.reply ≠ .ok ())
      (packet : c.before.encoding c.request = .ok (c.taken ++ left)) (last : Framed calls []) :
      Framed (c :: calls) c.taken

/-- The stream took some bytes of a request and not all. -/
def Call.CutShort (c : Call) : Prop := c.taken ≠ [] ∧ c.left ≠ []

/-- No call takes a byte behind one that was cut short. -/
def Unbroken (calls : List Call) : Prop :=
  calls.Pairwise fun c later => c.CutShort → later.taken = []

variable {w next : Writer} {request : Request} {c : Call} {calls : List Call} {bytes : Bytes}

/-! ## One call -/

/-- A request is refused as it is, or its bytes are written. -/
theorem submit_eq (w : Writer) (request : Request) :
    w.submit request = match w.encoding request with
      | .error cause => (.error (.encode cause), w)
      | .ok bytes => w.writeRaw bytes := by
  have hbatch (typeId : UInt16) (records : List Record) (flags : Flags) :
      w.writePacket typeId records flags = match w.pack typeId records flags with
        | .error cause => (.error (.encode cause), w)
        | .ok bytes => w.writeRaw bytes := by
    unfold writePacket pack
    split
    · rfl
    · rfl
  cases request with
  | packet typeId records flags => exact hbatch typeId records flags
  | commands commands flags => exact hbatch _ _ flags
  | raw bytes => rfl

/-- **Every call has an account.** -/
theorem exists_accounted (w : Writer) (request : Request) :
    ∃ c : Call, c.before = w ∧ c.request = request ∧ c.Accounted := by
  have hsubmit := w.submit_eq request
  cases hencoding : w.encoding request with
  | error cause =>
    rw [hencoding] at hsubmit
    exact ⟨⟨w, request, .error (.encode cause), [], [], w⟩, rfl, rfl,
      hsubmit, (List.append_nil _).symm, .refused hencoding, rfl, rfl⟩
  | ok bytes =>
    rw [hencoding] at hsubmit
    obtain ⟨hanswer, taken, left, rfl, haccepted, hleft⟩ := w.stream.send_account bytes
    refine ⟨⟨w, request, (w.writeRaw (taken ++ left)).1, taken, left,
      (w.writeRaw (taken ++ left)).2⟩, rfl, rfl, hsubmit, haccepted, ?_, rfl, rfl⟩
    cases hreply : (w.writeRaw (taken ++ left)).1 with
    | error cause =>
      exact .failed hencoding (WriteScript.lasting_of_answer (hanswer.symm.trans hreply))
    | ok =>
      obtain rfl := hleft hreply
      rw [List.append_nil] at hencoding
      exact .sent hencoding

/-! ## Any number of calls -/

theorem exists_calls (w : Writer) (requests : List Request) :
    ∃ calls, Ledger w calls ∧ calls.map Call.request = requests := by
  induction requests generalizing w with
  | nil => exact ⟨[], .nil w, rfl⟩
  | cons request requests ih =>
    obtain ⟨c, rfl, rfl, haccounted⟩ := w.exists_accounted request
    obtain ⟨calls, hledger, hrequests⟩ := ih c.after
    exact ⟨c :: calls, .cons haccounted hledger, by rw [List.map_cons, hrequests]⟩

theorem Ledger.accounted (hledger : Ledger w calls) : ∀ c ∈ calls, c.Accounted := by
  induction hledger with
  | nil w => exact List.forall_mem_nil _
  | cons call _ ih => exact List.forall_mem_cons.mpr ⟨call, ih⟩

/-- After every call the stream has taken what was taken call by call. -/
theorem Ledger.accepted {front back : List Call} (hledger : Ledger w calls)
    (hsplit : calls = front ++ c :: back) :
    c.after.stream.accepted = w.stream.accepted ++ (front ++ [c]).flatMap Call.taken := by
  induction hledger generalizing front with
  | nil => simp at hsplit
  | @cons first calls call more ih =>
    cases front with
    | nil =>
      obtain ⟨rfl, -⟩ := List.cons.inj hsplit
      simpa using call.accepted
    | cons first' front =>
      obtain ⟨rfl, hrest⟩ := List.cons.inj hsplit
      rw [ih hrest, call.accepted, List.cons_append, List.flatMap_cons, List.append_assoc]

/-! ## Framing -/

/-- What is framed is what was taken. -/
theorem Framed.eq_flatMap (hframed : Framed calls bytes) : bytes = calls.flatMap Call.taken := by
  induction hframed with
  | nil => rfl
  | whole packet more ih => rw [List.flatMap_cons, ih]
  | nothing failed none more ih => rw [List.flatMap_cons, none, List.nil_append, ih]
  | cut failed packet last ih => rw [List.flatMap_cons, ← ih, List.append_nil]

/-- Nothing is left of a request that the stream took whole. -/
theorem Call.Accounted.left_eq_nil (haccounted : c.Accounted)
    (hpacket : c.before.encoding c.request = .ok c.taken) : c.left = [] := by
  obtain ⟨before, request, reply, taken, left, after⟩ := c
  cases haccounted.settled with
  | refused encoding => rfl
  | sent encoding => rfl
  | failed encoding lasting =>
    have hbytes : taken ++ left = taken := Except.ok.inj (encoding.symm.trans hpacket)
    exact List.append_right_eq_self.mp hbytes

theorem Framed.unbroken (haccounted : ∀ c ∈ calls, c.Accounted) (hframed : Framed calls bytes) :
    Unbroken calls := by
  induction hframed with
  | nil => exact .nil
  | whole packet more ih =>
    obtain ⟨hcall, hcalls⟩ := List.forall_mem_cons.mp haccounted
    exact .cons (fun _ _ hcut => absurd (hcall.left_eq_nil packet) hcut.2) (ih hcalls)
  | nothing failed none more ih =>
    obtain ⟨-, hcalls⟩ := List.forall_mem_cons.mp haccounted
    exact .cons (fun _ _ hcut => absurd none hcut.1) (ih hcalls)
  | cut failed packet last ih =>
    obtain ⟨-, hcalls⟩ := List.forall_mem_cons.mp haccounted
    have hnothing := List.flatMap_eq_nil_iff.mp last.eq_flatMap.symm
    exact .cons (fun later hlater _ => hnothing later hlater) (ih hcalls)

theorem Unbroken.framed (haccounted : ∀ c ∈ calls, c.Accounted) (hunbroken : Unbroken calls) :
    Framed calls (calls.flatMap Call.taken) := by
  induction calls with
  | nil => exact .nil
  | cons c calls ih =>
    obtain ⟨hcall, hcalls⟩ := List.forall_mem_cons.mp haccounted
    obtain ⟨hlater, hunbroken⟩ := List.pairwise_cons.mp hunbroken
    have hmore := ih hcalls hunbroken
    obtain ⟨before, request, reply, taken, left, after⟩ := c
    rw [List.flatMap_cons]
    cases hcall.settled with
    | refused encoding => exact .nothing nofun rfl hmore
    | sent encoding => exact .whole encoding hmore
    | failed encoding lasting =>
      by_cases hleft : left = []
      · rw [hleft, List.append_nil] at encoding
        exact .whole encoding hmore
      by_cases htaken : taken = []
      · subst htaken
        exact .nothing nofun rfl hmore
      have hnothing : calls.flatMap Call.taken = [] :=
        List.flatMap_eq_nil_iff.mpr fun d hd => hlater d hd ⟨htaken, hleft⟩
      rw [hnothing] at hmore ⊢
      rw [List.append_nil]
      exact .cut nofun encoding hmore

/-- A run is unbroken if no call before the last met a refusal of the stream. -/
theorem unbroken_of_not_lasting (haccounted : ∀ d ∈ calls, d.Accounted)
    (hnone : ∀ d ∈ calls, ∀ cause, d.reply = .error cause → ¬ cause.Lasting) (c : Call) :
    Unbroken (calls ++ [c]) := by
  have hwhole (d : Call) (hd : d ∈ calls) : ¬ d.CutShort := by
    rintro ⟨htaken, hleft⟩
    have hsettled := (haccounted d hd).settled
    have hnone := hnone d hd
    obtain ⟨before, request, reply, taken, left, after⟩ := d
    cases hsettled with
    | refused encoding => exact hleft rfl
    | sent encoding => exact hleft rfl
    | failed encoding lasting => exact hnone _ rfl lasting
  refine List.pairwise_append.mpr ⟨?_, List.pairwise_singleton .., ?_⟩
  · exact List.pairwise_of_forall_mem_list fun d hd _ _ hcut => absurd hcut (hwhole d hd)
  · exact fun d hd _ _ hcut => absurd hcut (hwhole d hd)

/-- **A packet that is cut short must be the last.** Whatever a writer is asked to send, and wherever
the stream refuses: every call has an account, and after every call the bytes taken so far are those
of whole packets and at most one incomplete packet behind them if and only if no call has taken a
byte behind one that was cut short. So it is if nothing was sent behind a refusal of the stream. -/
theorem framed_iff_unbroken (w : Writer) (requests : List Request) :
    ∃ calls, Ledger w calls ∧ calls.map Call.request = requests ∧
      ∀ front c back, calls = front ++ c :: back →
        ∃ bytes, c.after.stream.accepted = w.stream.accepted ++ bytes ∧
          (Framed (front ++ [c]) bytes ↔ Unbroken (front ++ [c])) ∧
          ((∀ d ∈ front, ∀ cause, d.reply = .error cause → ¬ cause.Lasting) →
            Framed (front ++ [c]) bytes) := by
  obtain ⟨calls, hledger, hrequests⟩ := w.exists_calls requests
  refine ⟨calls, hledger, hrequests, fun front c back hsplit => ?_⟩
  obtain ⟨hfront, hc⟩ : (∀ d ∈ front, d.Accounted) ∧ ∀ d ∈ [c], d.Accounted := by
    have haccounted := hledger.accounted
    rw [hsplit, List.append_cons] at haccounted
    exact List.forall_mem_append.mp (List.forall_mem_append.mp haccounted).1
  have haccounted := List.forall_mem_append.mpr ⟨hfront, hc⟩
  refine ⟨_, hledger.accepted hsplit, ⟨fun hframed => hframed.unbroken haccounted,
    fun hunbroken => hunbroken.framed haccounted⟩, fun hnone => ?_⟩
  exact (unbroken_of_not_lasting hfront hnone c).framed haccounted

/-- A writer whose stream takes five bytes, times out once, and takes everything from then on. -/
def stalling : Writer :=
  ⟨⟨[.accept 5, .fail .timedOut], [], [], 0, 0, ⟨false, []⟩⟩, .builtin, .standard⟩

/-- The same after the timeout. -/
def stalled : Writer :=
  ⟨⟨[], [], Packet.drivePacket.take 5, 2, 0, ⟨false, []⟩⟩, .builtin, .standard⟩

/-- The same after a packet more. -/
def resumed : Writer :=
  ⟨⟨[], [], Packet.drivePacket.take 5 ++ Packet.drivePacket, 3, 1, ⟨false, []⟩⟩, .builtin,
    .standard⟩

/-- One drive command that clears the queue. -/
def driveRequest : Request := .packet DriveCommand.typeId Packet.driveRecords .clearQueue

/-- Packets do not stay apart behind a write that failed in the middle of one. -/
theorem not_forall_framed :
    ¬ ∀ (w : Writer) (calls : List Call) (c : Call), Ledger w (calls ++ [c]) →
      ∃ bytes, c.after.stream.accepted = w.stream.accepted ++ bytes ∧
        Framed (calls ++ [c]) bytes := by
  intro hall
  have hencode : Packet.encode .builtin DriveCommand.typeId Packet.driveRecords .clearQueue =
      .ok Packet.drivePacket := by decide +kernel
  have hencoding (stream : WriteScript) :
      Writer.encoding ⟨stream, .builtin, .standard⟩ driveRequest = .ok Packet.drivePacket := hencode
  have hsubmit (stream : WriteScript) :=
    submit_eq ⟨stream, .builtin, .standard⟩ driveRequest
  simp only [hencoding] at hsubmit
  let first : Call := ⟨stalling, driveRequest, .error (.io .timedOut), Packet.drivePacket.take 5,
    Packet.drivePacket.drop 5, stalled⟩
  let second : Call := ⟨stalled, driveRequest, .ok (), Packet.drivePacket, [], resumed⟩
  have hfirst : first.Accounted := by
    refine ⟨?_, rfl, .failed (hencoding _) rfl, rfl, rfl⟩
    refine (hsubmit _).trans ?_
    unfold writeRaw
    rw [WriteScript.send_of_cut rfl rfl (by decide)]
    rfl
  have hsecond : second.Accounted := by
    refine ⟨?_, rfl, .sent (hencoding _), rfl, rfl⟩
    refine (hsubmit _).trans ?_
    unfold writeRaw
    rw [WriteScript.send_of_free rfl rfl (by decide)]
    rfl
  obtain ⟨bytes, -, hframed⟩ := hall stalling [first] second (.cons hfirst (.cons hsecond (.nil _)))
  have hunbroken := hframed.unbroken (by simpa using ⟨hfirst, hsecond⟩)
  have hcut : first.CutShort := ⟨by decide, by decide⟩
  exact absurd (List.rel_of_pairwise_cons hunbroken (List.mem_singleton.mpr rfl) hcut) (by decide)

end Writer

end CommandLink
