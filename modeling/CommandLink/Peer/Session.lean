import CommandLink.Peer.Error
import CommandLink.Peer.Negotiator
import CommandLink.Stream.Reader
import CommandLink.Stream.Writer

/-!
# Sessions

A link is the two directions of one connection. `Link.exchange` sends the own handshake and waits
for the peer's; only a link whose peer answered with the same schema hash becomes a session, and
only a session carries packets.

Time passes only where a script says so: a stream on which nothing arrives for ever outlasts every
deadline, and a deadline of zero has passed before the first read. A call on which nothing has
arrived yet is followed by another one, and what that one meets counts. A deadline that the clock
cannot tell breaks the exchange off.
-/

namespace CommandLink

/-- Whether a read call that fails in this way may succeed later. -/
def IoErrorKind.isNoData (kind : IoErrorKind) : Bool :=
  kind == .wouldBlock || kind == .timedOut

/-! ## Progress of reads -/

theorem ReadScript.size_go_failed {s t : ReadScript} {room : Nat} {kind : IoErrorKind}
    (pending : List ReadEvent) (calls : Nat)
    (h : ReadScript.readSteadily.go s room pending calls = (.failed kind, t)) :
    t.failsForever kind = true ∨ t.size < pending.foldr (fun event size => event.size + size) 0 := by
  fun_induction ReadScript.readSteadily.go s room pending calls with
  | case1 calls rest ih =>
    refine (ih h).imp_right fun h => ?_
    rw [List.foldr_cons]
    exact Nat.lt_of_lt_of_le h (Nat.le_add_left ..)
  | case2 calls pending _ =>
    rw [ReadScript.read] at h
    split at h <;> simp only [Prod.mk.injEq, reduceCtorEq, false_and] at h
    · rename_i hs
      simp only at hs
      rw [← h.2, hs]
      exact .inr (by simp [ReadScript.size, ReadEvent.size])
    · have hk := ReadOutcome.failed.inj h.1
      rw [← h.2, ← hk]
      exact .inl (by simp [ReadScript.failsForever])

namespace Reader

/-- Raw bytes come off the stream or off the buffer. -/
theorem readRaw_ok {r next : Reader} {limit : Nat} {bytes : Bytes} (hlimit : limit ≠ 0)
    (h : r.readRaw limit = (.ok bytes, next)) :
    next.stream.size < r.stream.size ∨ next.stream = r.stream ∧ bytes ≠ [] := by
  simp only [readRaw, if_neg hlimit] at h
  split at h
  · split at h
    · rename_i hf
      have := size_fill_lt hf
      simp only [Prod.mk.injEq] at h
      rw [← h.2]
      exact .inl this
    · simp at h
  · rename_i hne
    simp only [Prod.mk.injEq, Except.ok.injEq] at h
    refine .inr ⟨by rw [← h.2], ?_⟩
    rw [← h.1]
    intro h₀
    rw [List.take_eq_nil_iff] at h₀
    simp_all

/-- A failed read of raw bytes uses up some of the stream, unless the stream fails for ever in the
same way. -/
theorem readRaw_io {r next : Reader} {limit : Nat} {kind : IoErrorKind}
    (h : r.readRaw limit = (.error (.io kind), next)) :
    next.stream.failsForever kind = true ∨ next.stream.size < r.stream.size := by
  rw [readRaw] at h
  split at h
  · simp at h
  · simp only at h
    split at h
    · split at h
      · simp at h
      · rename_i e filled hf
        simp only [Prod.mk.injEq, Except.error.injEq] at h
        rw [h.1, h.2, fill] at hf
        split at hf <;> simp only [Prod.mk.injEq, Except.error.injEq, FrameError.io.injEq,
          reduceCtorEq, false_and] at hf
        rename_i hs
        rw [hf.1] at hs
        rw [← hf.2]
        exact ReadScript.size_go_failed _ _ hs
    · simp at h

end Reader

/-! ## The exchange -/

/-- The two directions of one connection. -/
structure Link where
  reader : Reader
  writer : Writer

/-- Reads until the negotiator has decided: the peer's hash. -/
def Negotiator.settle (n : Negotiator) (timeout : Duration) (r : Reader) :
    Except PeerError SchemaHash × Reader :=
  match n.state with
  | .validated theirs => (.ok theirs, r)
  | _ =>
    match _h : r.readRaw n.remaining with
    | (.ok bytes, read) =>
      match _hf : n.feed bytes with
      | (.ok _, fed) => fed.settle timeout read
      | (.error cause, _) => (.error (.handshake cause), read)
    | (.error .connectionClosed, read) =>
      match n.close.1 with
      | .ok theirs => (.ok theirs, read)
      | .error cause => (.error (.handshake cause), read)
    | (.error (.io kind), read) =>
      if kind.isNoData then
        if _hs : read.stream.failsForever kind then (.error (.timeout timeout), read)
        else n.settle timeout read
      else (.error (.frame (.io kind)), read)
    | (.error cause, read) => (.error (.frame cause), read)
termination_by r.stream.size + n.remaining
decreasing_by
  · have ⟨hle, hlt⟩ := Negotiator.remaining_feed _hf
    by_cases h₀ : n.remaining = 0
    · rw [h₀, Reader.readRaw, if_pos rfl] at _h
      simp only [Prod.mk.injEq, Except.ok.injEq] at _h
      have : ∀ taken next, n.feed bytes ≠ (.ok taken, next) := by
        intro taken next hfeed
        rw [Negotiator.feed] at hfeed
        split at hfeed
        · rename_i received incomplete hs
          rw [Negotiator.remaining, hs] at h₀
          simp only at h₀
          omega
        · simp at hfeed
        · simp at hfeed
      exact absurd _hf (this _ _)
    · rcases Reader.readRaw_ok h₀ _h with hsize | ⟨hsame, hne⟩
      · omega
      · have := hlt hne
        rw [hsame]
        omega
  · rcases Reader.readRaw_io _h with hstuck | hsize
    · exact absurd hstuck _hs
    · omega

/-- A connection whose peer has presented the same schema hash. -/
structure Session where
  link : Link
  /-- The hash that the peer presented. -/
  theirs : SchemaHash
  readTimeout : Option Duration

/-- The deadline of the peer's handshake unless another is asked for. -/
def Link.standardTimeout : Duration := .seconds 5

/-- Waits for the peer's handshake. The deadline is set by what the clock shows; if the clock cannot
tell it, the program breaks off without an answer (`none`). -/
def Link.awaitPeer (l : Link) (n : Negotiator) (timeout : Duration) (clock : Clock) :
    Option (Except PeerError Session) × Link :=
  match clock.now.after? timeout with
  | none => (none, l)
  | some deadline =>
    if deadline.nanoseconds ≤ clock.now.nanoseconds then (some (.error (.timeout timeout)), l)
    else
      let (result, reader) := n.settle timeout l.reader
      let link : Link := { l with reader }
      (some (result.map fun theirs => ⟨link, theirs, reader.config.timeout⟩), link)

/-- Exchanges handshakes. A link with two different schemas sends and reads nothing. The deadline
counts from when the own handshake has been sent, so what was sent stays sent if there is none. -/
def Link.exchange (l : Link) (timeout : Duration) (clock : Clock) :
    Option (Except PeerError Session) × Link :=
  let ours := l.writer.schema.hash
  let readerHash := l.reader.schema.hash
  if readerHash ≠ ours then (some (.error (.handshake (.splitSchema readerHash ours))), l)
  else
    match (Negotiator.new ours).start with
    | (.error cause, _) => (some (.error (.handshake cause)), l)
    | (.ok hello, negotiator) =>
      match l.writer.writeRaw hello with
      | (.error cause, writer) => (some (.error (.frame cause)), { l with writer })
      | (.ok (), writer) => { l with writer }.awaitPeer negotiator timeout clock

namespace Session

/-- A failure of the stream as the failure of the session. -/
def failure (s : Session) : FrameError → PeerError
  | .connectionClosed => .disconnected
  | .io kind =>
    if kind.isNoData then .timeout (s.readTimeout.getD ⟨0⟩) else .frame (.io kind)
  | cause => .frame cause

/-- The session after its writer did something. -/
def afterWrite (s : Session) (outcome : Except FrameError Unit × Writer) :
    Except PeerError Unit × Session :=
  (outcome.1.mapError s.failure, { s with link := { s.link with writer := outcome.2 } })

/-- Sends one batch of records. -/
def sendBatch (s : Session) (typeId : UInt16) (records : List Record) (flags : Flags) :
    Except PeerError Unit × Session :=
  s.afterWrite (s.link.writer.writePacket typeId records flags)

/-- Sends one batch of drive commands. -/
def sendCommands (s : Session) (commands : List DriveCommand) (flags : Flags) :
    Except PeerError Unit × Session :=
  s.afterWrite (s.link.writer.writeCommands commands flags)

/-- Receives the next packet as one of the given message type. -/
def receiveBatch (s : Session) (typeId : UInt16) : Except PeerError Packet × Session :=
  let (result, reader) := (s.link.reader.setTypeId typeId).readPacket
  (result.mapError s.failure, { s with link := { s.link with reader } })

/-- Receives the next packet as drive commands. -/
def receiveCommands (s : Session) : Except PeerError (Flags × List DriveCommand) × Session :=
  match s.receiveBatch DriveCommand.typeId with
  | (.error cause, next) => (.error cause, next)
  | (.ok packet, next) =>
    match packet.commands with
    | .ok commands => (.ok (packet.header.flags, commands), next)
    | .error cause => (.error (.frame (.decode cause)), next)

/-- Bounds further receives by a timeout. -/
def setReadTimeout (s : Session) (timeout : Option Duration) : Except PeerError Unit × Session :=
  match s.link.reader.setTimeout timeout with
  | .ok reader => (.ok (), ⟨{ s.link with reader }, s.theirs, timeout⟩)
  | .error kind => (.error (.io kind), s)

/-- What a session shows of itself. -/
def text (s : Session) : String :=
  let stats := s.link.reader.stats
  let timeout := match s.readTimeout with
    | some d => s!"Some({d.text})"
    | none => "None"
  s!"Session \x7b remote_hash: SchemaHash({s.theirs.value}), read_timeout: {timeout}, "
    ++ s!"reader_stats: ReaderStats \x7b packets: {stats.packets}, errors: {stats.errors}, "
    ++ s!"consecutive_errors: {stats.consecutiveErrors} \x7d, .. \x7d"

end Session

end CommandLink
