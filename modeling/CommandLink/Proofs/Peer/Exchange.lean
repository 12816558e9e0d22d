import CommandLink.Peer.Session
import CommandLink.Proofs.Peer.Handshake
import CommandLink.Proofs.Stream.Outlook
import CommandLink.Proofs.Stream.Writes

/-!
# Exchanging handshakes

An exchange is seen from outside: by what the peer sends before its stream ends, or fails in a way that
is not waited through (`Link.peer`), by how the own stream answers to eight bytes and a flush, and by
the clock, which has to be able to tell the deadline (`Clock.Allows`).

* `settle_settlement`: the loop that waits for the peer comes to the verdict on the first eight bytes,
  or says why there are fewer, however they arrive (`Settlement`).
* `exchange_matching`, `matching_of_exchange`: what makes a session, and that nothing else does.
* `exchange_session_iff`: when there is a session, what it has read and written, and what is answered
  otherwise.
* `exchange_breaksOff_iff`: when there is no answer at all.
-/

namespace CommandLink

/-- Whether an exchange waits through a read that fails in this way. -/
def IoErrorKind.isWaitedThrough (kind : IoErrorKind) : Bool :=
  kind.isInterruption || kind.isNoData

namespace Negotiator

open Reader (Yields Handout)

variable {passes : IoErrorKind → Bool} {ours : SchemaHash} {received taken : Bytes}
  {waiting : received.length < Handshake.size} {r read next : Reader} {timeout : Duration}
  {result : Except PeerError SchemaHash}

/-- What is to be had from the reader is what an exchange gets to see: no more is passed over than it
waits through, and it does not wait through the end. -/
structure Sees (passes : IoErrorKind → Bool) (r : Reader) : Prop where
  waited : ∀ kind, passes kind = true → kind.isWaitedThrough = true
  ending : ∀ kind, kind.isWaitedThrough = true → (r.outlook passes).ending ≠ .failed kind

theorem sees_waitedThrough (r : Reader) : Sees IoErrorKind.isWaitedThrough r where
  waited := fun _ => id
  ending := fun _ hwaited => ReadScript.ending_ne_failed hwaited r.stream

theorem sees_of_ended (hended : (r.outlook IoErrorKind.isInterruption).ending = .ended) :
    Sees IoErrorKind.isInterruption r where
  waited := fun kind hpassed => by rw [IoErrorKind.isWaitedThrough, hpassed, Bool.true_or]
  ending := fun kind _ => by rw [hended]; nofun

theorem Sees.of_yields (hsees : Sees passes r) (hyields : Yields passes r taken read) :
    Sees passes read where
  waited := hsees.waited
  ending := hyields.ending ▸ hsees.ending

/-- What a negotiator that has received some bytes answers in the end, given what is to be had from
its reader: the verdict on eight bytes, or why there are fewer. -/
inductive Settlement (passes : IoErrorKind → Bool) (ours : SchemaHash) (received : Bytes) (r : Reader) :
    Except PeerError SchemaHash → Reader → Prop where
  | decided {taken : Bytes} {next : Reader} (enough : (received ++ taken).length = Handshake.size)
      (yields : Yields passes r taken next) : Settlement passes ours received r
        ((Handshake.validate (received ++ taken) ours).mapError .handshake) next
  | ended {all : Bytes} {next : Reader} (all_eq : all = received ++ (r.outlook passes).bytes)
      (short : all.length < Handshake.size) (ending : (r.outlook passes).ending = .ended) :
      Settlement passes ours received r (.error (.handshake (.incomplete all.length))) next
  | failed {kind : IoErrorKind} {next : Reader}
      (short : (received ++ (r.outlook passes).bytes).length < Handshake.size)
      (ending : (r.outlook passes).ending = .failed kind) :
      Settlement passes ours received r (.error (.frame (.io kind))) next
  | stalled {cause : PeerError} {next : Reader}
      (short : (received ++ (r.outlook passes).bytes).length < Handshake.size)
      (ending : (r.outlook passes).ending = .stalled) :
      Settlement passes ours received r (.error cause) next

/-- What comes off the reader is received. -/
theorem Settlement.of_yields (hyields : Yields passes r taken read)
    (hafter : Settlement passes ours (received ++ taken) read result next) :
    Settlement passes ours received r result next := by
  cases hafter with
  | decided enough yields =>
    rw [List.append_assoc] at enough ⊢
    exact .decided enough (hyields.trans yields)
  | ended all_eq short ending =>
    rw [List.append_assoc, ← hyields.bytes] at all_eq
    exact .ended all_eq short (hyields.ending.trans ending)
  | failed short ending =>
    rw [List.append_assoc, ← hyields.bytes] at short
    exact .failed short (hyields.ending.trans ending)
  | stalled short ending =>
    rw [List.append_assoc, ← hyields.bytes] at short
    exact .stalled short (hyields.ending.trans ending)

/-- Nothing comes off a reader whose stream fails for ever in a way that is passed over. -/
theorem Settlement.of_lasting {kind : IoErrorKind} {cause : PeerError} (hpassed : passes kind = true)
    (hempty : read.buffer = []) (hlasting : read.stream.failsForever kind = true)
    (hyields : Yields passes r [] read) (waiting : received.length < Handshake.size) :
    Settlement passes ours received r (.error cause) next := by
  have hstalled := ReadScript.outlook_of_failsForever hlasting hpassed
  refine .stalled ?_ ?_
  · rw [hyields.bytes, Reader.outlook, hempty, hstalled]
    simpa using waiting
  · rw [hyields.ending, Reader.outlook, hstalled]

/-- **The answer of a negotiator that waits** is settled by what is to be had from its reader. -/
theorem settle_settlement {n : Negotiator} (hn : n = ⟨ours, .awaitingPeer received waiting⟩)
    (hsees : Sees passes r) (hsettle : n.settle timeout r = (result, next)) :
    Settlement passes ours received r result next := by
  have hwaited {kind : IoErrorKind} (hnoData : kind.isNoData = true) :
      kind.isWaitedThrough = true := by
    rw [IoErrorKind.isWaitedThrough, hnoData, Bool.or_true]
  -- along the loop, what is received grows by what the reader yields
  fun_induction settle n timeout r generalizing received with
  | case1 n r theirs hvalidated =>
    rw [hn] at hvalidated
    cases hvalidated
  | case2 n r bytes read hraw count fed hfeed hnot ih =>
    subst hn
    obtain ⟨fits, yields⟩ := Reader.readRaw_handout (hsees.ending _ rfl) hraw
    rcases feed_awaiting fits hfeed with
      ⟨hless, -, rfl⟩ | ⟨hall, ⟨theirs, hverdict, -, rfl⟩ | ⟨cause, -, hrefused, -⟩⟩
    · exact .of_yields yields (ih rfl (hsees.of_yields yields) hsettle)
    · have hdecided : Settlement passes ours received r _ read := .decided hall yields
      rw [hverdict] at hdecided
      rw [settle] at hsettle
      cases hsettle
      exact hdecided
    · cases hrefused
  | case3 n r bytes read hraw cause fed hfeed hnot =>
    subst hn
    cases hsettle
    obtain ⟨fits, yields⟩ := Reader.readRaw_handout (hsees.ending _ rfl) hraw
    rcases feed_awaiting fits hfeed with
      ⟨hless, hgathered, -⟩ | ⟨hall, ⟨theirs, -, haccepted, -⟩ | ⟨cause, hverdict, hrefused, -⟩⟩
    · cases hgathered
    · cases haccepted
    · cases hrefused
      have hdecided : Settlement passes ours received r _ next := .decided hall yields
      rwa [hverdict] at hdecided
  | case4 n r read hraw theirs hclose hnot =>
    rw [hn] at hclose
    cases hclose
  | case5 n r read hraw cause hclose hnot =>
    rw [hn] at hclose
    cases hclose
    cases hsettle
    cases Reader.readRaw_handout (hsees.ending _ rfl) hraw with
    | ended nothing => exact .ended (by rw [nothing, List.append_nil]) waiting (by rw [nothing])
  | case6 n r kind read hraw hnoData hforever hnot =>
    cases hsettle
    cases Reader.readRaw_handout (hsees.ending _ rfl) hraw with
    | passed passed empty lasting yields => exact .of_lasting passed empty hforever yields waiting
    | failed nothing => exact absurd (by rw [nothing]) (hsees.ending kind (hwaited hnoData))
  | case7 n r kind read hraw hnoData hforever hnot ih =>
    cases Reader.readRaw_handout (hsees.ending _ rfl) hraw with
    | passed passed empty lasting yields =>
      refine .of_yields yields ?_
      rw [List.append_nil]
      exact ih hn (hsees.of_yields yields) hsettle
    | failed nothing => exact absurd (by rw [nothing]) (hsees.ending kind (hwaited hnoData))
  | case8 n r kind read hraw hnoData hnot =>
    cases hsettle
    cases Reader.readRaw_handout (hsees.ending _ rfl) hraw with
    | passed passed empty lasting yields =>
      -- only an interruption is passed over here, and the reader had repeated any other one
      obtain rfl : kind = .interrupted := by
        simpa [IoErrorKind.isWaitedThrough, IoErrorKind.isInterruption, hnoData] using
          hsees.waited kind passed
      exact .of_lasting passed empty (lasting rfl) yields waiting
    | failed nothing =>
      exact .failed (by rw [nothing, List.append_nil]; exact waiting) (by rw [nothing])
  | case9 n r cause read hclosed hio hraw hnot =>
    cases Reader.readRaw_handout (hsees.ending _ rfl) hraw with
    | passed => exact absurd rfl (hio _)
    | ended => exact absurd rfl hclosed
    | failed => exact absurd rfl (hio _)

/-! ### What a settlement says of a new negotiator -/

/-- The first eight bytes decide, and no more are taken. -/
theorem Settlement.of_enough (hsettled : Settlement passes ours [] r result next)
    (henough : Handshake.size ≤ (r.outlook passes).bytes.length) :
    result = (Handshake.validate ((r.outlook passes).bytes.take Handshake.size) ours).mapError
        .handshake ∧
      Yields passes r ((r.outlook passes).bytes.take Handshake.size) next := by
  cases hsettled with
  | decided enough yields =>
    rename_i taken
    obtain rfl : taken = (r.outlook passes).bytes.take Handshake.size := by
      rw [yields.bytes]
      exact (List.take_left' enough).symm
    exact ⟨rfl, yields⟩
  | ended all_eq short =>
    subst all_eq
    exact absurd short (Nat.not_lt.mpr henough)
  | failed short => exact absurd short (Nat.not_lt.mpr henough)
  | stalled short => exact absurd short (Nat.not_lt.mpr henough)

/-- Fewer than eight bytes are refused with the reason why there are no more. -/
theorem Settlement.of_short (hsettled : Settlement passes ours [] r result next)
    (hshort : (r.outlook passes).bytes.length < Handshake.size) :
    (∀ theirs, result ≠ .ok theirs) ∧
      ((r.outlook passes).ending = .ended →
        result = .error (.handshake (.incomplete (r.outlook passes).bytes.length))) ∧
      ∀ kind, (r.outlook passes).ending = .failed kind → result = .error (.frame (.io kind)) := by
  cases hsettled with
  | decided enough yields =>
    rw [yields.bytes, List.length_append, ← enough] at hshort
    simp only [List.nil_append] at hshort
    omega
  | ended all_eq short ending =>
    rw [all_eq]
    exact ⟨nofun, fun _ => rfl, fun kind h => by rw [ending] at h; cases h⟩
  | failed short ending =>
    rw [ending]
    exact ⟨nofun, nofun, fun kind h => by cases h; rfl⟩
  | stalled short ending =>
    rw [ending]
    exact ⟨nofun, nofun, nofun⟩

end Negotiator

namespace Link

open Negotiator (Settlement Sees)

variable {l link : Link} {timeout : Duration} {clock : Clock} {session : Session}
  {cause : FrameError}

/-- Every clock can tell when five seconds have passed. -/
theorem standardTimeout_allowed (clock : Clock) : clock.Allows standardTimeout :=
  clock.allows_of_le (by decide) (by decide)

/-- The hash that a link presents. -/
def ours (l : Link) : SchemaHash := l.writer.schema.hash

/-- What the peer sends before its stream ends, or fails in a way that is not waited through. -/
def peer (l : Link) : Outlook := l.reader.stream.outlook IoErrorKind.isWaitedThrough

/-! ## The exchange step by step -/

theorem awaitPeer_beyond {n : Negotiator} (hbeyond : clock.now.after? timeout = none) :
    l.awaitPeer n timeout clock = (none, l) := by
  rw [awaitPeer, hbeyond]

/-- Only a deadline that the clock cannot tell leaves the wait without an answer. -/
theorem awaitPeer_fst_eq_none {n : Negotiator} :
    (l.awaitPeer n timeout clock).1 = none ↔ clock.now.after? timeout = none := by
  refine ⟨fun hnone => ?_, fun hbeyond => by rw [awaitPeer_beyond hbeyond]⟩
  unfold awaitPeer at hnone
  split at hnone
  · assumption
  · split at hnone <;> cases hnone

theorem awaitPeer_allowed {n : Negotiator} (hallowed : clock.Allows timeout) :
    l.awaitPeer n timeout clock =
      (some ((n.settle timeout l.reader).1.map fun theirs =>
          ⟨{ l with reader := (n.settle timeout l.reader).2 }, theirs,
            (n.settle timeout l.reader).2.config.timeout⟩),
        { l with reader := (n.settle timeout l.reader).2 }) := by
  obtain ⟨deadline, hdeadline, hahead⟩ := hallowed
  rw [awaitPeer, hdeadline]
  exact if_neg (Nat.not_le.mpr hahead)

/-- The session has what is left of the reader, and the writer as it was. -/
theorem awaitPeer_ok {n : Negotiator}
    (hawait : l.awaitPeer n timeout clock = (some (.ok session), link)) :
    session.link = link ∧ link.writer = l.writer := by
  unfold awaitPeer at hawait
  split at hawait
  · cases hawait
  split at hawait
  · cases hawait
  rcases hsettle : n.settle timeout l.reader with ⟨cause | theirs, reader⟩
  · rw [hsettle] at hawait
    cases hawait
  · rw [hsettle] at hawait
    cases hawait
    exact ⟨rfl, rfl⟩

theorem exchange_split (hsplit : l.reader.schema.hash ≠ l.ours) : l.exchange timeout clock =
    (some (.error (.handshake (.splitSchema l.reader.schema.hash l.ours))), l) := by
  unfold exchange
  exact if_pos hsplit

section Same

variable (hsame : l.reader.schema.hash = l.ours)

include hsame

theorem exchange_same : l.exchange timeout clock =
    match l.writer.writeRaw (Handshake.encode l.ours) with
    | (.error cause, writer) => (some (.error (.frame cause)), { l with writer })
    | (.ok (), writer) =>
      { l with writer }.awaitPeer ⟨l.ours, .awaitingPeer [] (by decide)⟩ timeout clock := by
  unfold exchange
  exact if_neg (not_not.mpr hsame)

/-- What the own stream refuses ends an exchange before anything is read. -/
theorem exchange_refused {cause : FrameError}
    (hrefused : l.writer.stream.answer Handshake.size = .error cause) :
    ∃ writer, l.exchange timeout clock = (some (.error (.frame cause)), { l with writer }) := by
  have hanswer := l.writer.writeRaw_fst (Handshake.encode l.ours)
  rw [Handshake.length_encode, hrefused] at hanswer
  rw [exchange_same hsame]
  rcases hwrite : l.writer.writeRaw (Handshake.encode l.ours) with ⟨result, writer⟩
  rw [hwrite] at hanswer
  subst hanswer
  exact ⟨writer, rfl⟩

section Sent

variable {passes : IoErrorKind → Bool} (hanswer : l.writer.stream.answer Handshake.size = .ok ())

include hanswer

/-- When the own stream has taken the own handshake, the peer's is waited for. -/
theorem exchange_sent : ∃ writer, l.writer.writeRaw (Handshake.encode l.ours) = (.ok (), writer) ∧
    l.exchange timeout clock =
      { l with writer }.awaitPeer ⟨l.ours, .awaitingPeer [] (by decide)⟩ timeout clock := by
  have hwritten := l.writer.writeRaw_fst (Handshake.encode l.ours)
  rw [Handshake.length_encode, hanswer] at hwritten
  rw [exchange_same hsame]
  rcases hwrite : l.writer.writeRaw (Handshake.encode l.ours) with ⟨written, writer⟩
  rw [hwrite] at hwritten
  subst hwritten
  exact ⟨writer, rfl, rfl⟩

/-- Without a deadline there is no answer. Nothing is read then, but the own handshake was sent. -/
theorem exchange_beyond (hbeyond : clock.now.after? timeout = none) :
    ∃ writer, l.exchange timeout clock = (none, { l with writer }) ∧
      writer.stream.accepted = l.writer.stream.accepted ++ Handshake.encode l.ours := by
  obtain ⟨writer, hwrite, hexchange⟩ := exchange_sent hsame hanswer
  obtain ⟨-, -, haccepted⟩ := Writer.accepted_of_writeRaw hwrite
  exact ⟨writer, hexchange.trans (awaitPeer_beyond hbeyond), haccepted⟩

section Settled

variable (hallowed : clock.Allows timeout) (hsees : Sees passes l.reader)

include hallowed hsees

/-- Once the own handshake has been sent, what is to be had from the reader settles the exchange. -/
theorem exchange_settled :
    ∃ result link, Settlement passes l.ours [] l.reader result link.reader ∧
      l.exchange timeout clock =
        (some (result.map fun theirs => ⟨link, theirs, link.reader.config.timeout⟩), link) := by
  obtain ⟨writer, -, hexchange⟩ := exchange_sent hsame hanswer
  exact ⟨_, _, Negotiator.settle_settlement rfl hsees rfl,
    hexchange.trans (awaitPeer_allowed hallowed)⟩

/-- **The peer's handshake makes a session**, and nothing behind it is taken. -/
theorem exchange_matching
    (hmatch : (l.reader.outlook passes).bytes.take Handshake.size = Handshake.encode l.ours) :
    ∃ session, l.exchange timeout clock = (some (.ok session), session.link) ∧ session.theirs = l.ours ∧
      Reader.Yields passes l.reader (Handshake.encode l.ours) session.link.reader := by
  have henough : Handshake.size ≤ (l.reader.outlook passes).bytes.length := by
    rw [← Handshake.length_encode l.ours, ← hmatch, List.length_take]
    exact Nat.min_le_right ..
  obtain ⟨result, link, hsettled, hexchange⟩ := exchange_settled hsame hanswer hallowed hsees
  obtain ⟨rfl, hyields⟩ := hsettled.of_enough henough
  have hgood := Handshake.validate_encode l.ours []
  rw [List.append_nil] at hgood
  rw [hmatch, hgood] at hexchange
  rw [hmatch] at hyields
  exact ⟨_, hexchange, rfl, hyields⟩

/-- Eight other bytes are refused. -/
theorem exchange_other (henough : Handshake.size ≤ (l.reader.outlook passes).bytes.length)
    (hother : (l.reader.outlook passes).bytes.take Handshake.size ≠ Handshake.encode l.ours) :
    ∃ cause, Handshake.validate ((l.reader.outlook passes).bytes.take Handshake.size) l.ours =
        .error cause ∧
      ((∃ found, cause = .badMagic found) ∨ ∃ theirs, cause = .schemaMismatch l.ours theirs) ∧
      (l.exchange timeout clock).1 = some (.error (.handshake cause)) := by
  obtain ⟨result, link, hsettled, hexchange⟩ := exchange_settled hsame hanswer hallowed hsees
  obtain ⟨rfl, -⟩ := hsettled.of_enough henough
  obtain ⟨cause, hverdict, hcause⟩ := Handshake.validate_other
    (by rw [List.length_take, Nat.min_eq_left henough]) (by rwa [List.take_take, Nat.min_self])
  refine ⟨cause, hverdict, hcause, ?_⟩
  rw [hexchange, hverdict]
  rfl

/-- Fewer than eight bytes are refused with the reason why there are no more. -/
theorem exchange_short (hshort : (l.reader.outlook passes).bytes.length < Handshake.size) :
    (∀ session, (l.exchange timeout clock).1 ≠ some (.ok session)) ∧
      ((l.reader.outlook passes).ending = .ended → (l.exchange timeout clock).1 =
        some (.error (.handshake (.incomplete (l.reader.outlook passes).bytes.length)))) ∧
      ∀ kind, (l.reader.outlook passes).ending = .failed kind →
        (l.exchange timeout clock).1 = some (.error (.frame (.io kind))) := by
  obtain ⟨result, link, hsettled, hexchange⟩ := exchange_settled hsame hanswer hallowed hsees
  obtain ⟨hnone, hended, hfailed⟩ := hsettled.of_short hshort
  rw [hexchange]
  refine ⟨fun session hsession => ?_, fun h => by rw [hended h]; rfl,
    fun kind h => by rw [hfailed kind h]; rfl⟩
  cases result with
  | error cause => cases hsession
  | ok theirs => exact hnone theirs rfl

end Settled

end Sent

end Same

/-- An exchange that answers no error has sent the own handshake. -/
theorem sent_of_no_error (hno : ∀ cause, (l.exchange timeout clock).1 ≠ some (.error cause)) :
    l.reader.schema.hash = l.ours ∧ l.writer.stream.answer Handshake.size = .ok () := by
  by_cases hsame : l.reader.schema.hash = l.ours
  swap
  · exact absurd (by rw [exchange_split hsame]) (hno _)
  refine ⟨hsame, ?_⟩
  cases hanswer : l.writer.stream.answer Handshake.size with
  | error cause =>
    obtain ⟨writer, hrefused⟩ : ∃ writer, l.exchange timeout clock =
      (some (.error (.frame cause)), { l with writer }) := exchange_refused hsame hanswer
    exact absurd (by rw [hrefused]) (hno _)
  | ok _ => rfl

/-- A session has sent its own handshake, whatever its reader met. -/
theorem sent_of_exchange (hexchange : l.exchange timeout clock = (some (.ok session), link)) :
    l.reader.schema.hash = l.ours ∧ l.writer.stream.answer Handshake.size = .ok () ∧
      session.link = link ∧
      l.writer.writeRaw (Handshake.encode l.ours) = (.ok (), link.writer) := by
  obtain ⟨hsame, hanswer⟩ := sent_of_no_error fun cause h => by rw [hexchange] at h; cases h
  obtain ⟨writer, hwrite, hawait⟩ := exchange_sent hsame hanswer
  obtain ⟨hlink, hwriter⟩ := awaitPeer_ok (hawait.symm.trans hexchange)
  exact ⟨hsame, hanswer, hlink, hwriter ▸ hwrite⟩

/-- There is no session without the peer's handshake. -/
theorem matching_of_exchange {passes : IoErrorKind → Bool} (hallowed : clock.Allows timeout)
    (hsees : Sees passes l.reader) (hexchange : l.exchange timeout clock = (some (.ok session), link)) :
    (l.reader.outlook passes).bytes.take Handshake.size = Handshake.encode l.ours := by
  obtain ⟨hsame, hanswer, -⟩ := sent_of_exchange hexchange
  have hsession : (l.exchange timeout clock).1 = some (.ok session) := congrArg Prod.fst hexchange
  rcases Nat.lt_or_ge (l.reader.outlook passes).bytes.length Handshake.size with hshort | henough
  · exact absurd hsession ((exchange_short hsame hanswer hallowed hsees hshort).1 session)
  apply Classical.by_contradiction
  intro hother
  obtain ⟨cause, -, -, hrefused⟩ := exchange_other hsame hanswer hallowed hsees henough hother
  rw [hrefused] at hsession
  cases hsession

/-! ## When there is a session -/

/-- **A session exists exactly after a matching exchange**: both directions have the same schema hash,
the own stream takes the own handshake and its flush, and the peer's bytes begin with the same eight.
Then these eight were written, the session has that hash for the peer's, and the bytes behind the eighth
are still to be had. Otherwise the first of these that fails is answered: a link with two hashes is left
as it was, and a refused write ends the exchange before anything is read. All this is for a deadline
that the clock can tell and has not reached; `exchange_breaksOff_iff` is about one that it cannot
tell. -/
theorem exchange_session_iff (hempty : l.reader.buffer = [])
    (hallowed : clock.Allows timeout) :
    ((∃ session link, l.exchange timeout clock = (some (.ok session), link)) ↔
      l.reader.schema.hash = l.ours ∧ l.writer.stream.answer Handshake.size = .ok () ∧
        l.peer.bytes.take Handshake.size = Handshake.encode l.ours) ∧
    (∀ session link, l.exchange timeout clock = (some (.ok session), link) →
      session.link = link ∧ session.theirs = l.ours ∧
      link.writer.stream.accepted = l.writer.stream.accepted ++ Handshake.encode l.ours ∧
      link.reader.outlook IoErrorKind.isWaitedThrough =
        ⟨l.peer.bytes.drop Handshake.size, l.peer.ending⟩) ∧
    (l.reader.schema.hash ≠ l.ours → l.exchange timeout clock =
      (some (.error (.handshake (.splitSchema l.reader.schema.hash l.ours))), l)) ∧
    (l.reader.schema.hash = l.ours →
      (∀ cause, l.writer.stream.answer Handshake.size = .error cause →
        ∃ writer, l.exchange timeout clock = (some (.error (.frame cause)), { l with writer })) ∧
      (l.writer.stream.answer Handshake.size = .ok () →
        (Handshake.size ≤ l.peer.bytes.length →
          l.peer.bytes.take Handshake.size ≠ Handshake.encode l.ours →
          ∃ cause, Handshake.validate (l.peer.bytes.take Handshake.size) l.ours = .error cause ∧
            ((∃ found, cause = .badMagic found) ∨ ∃ theirs, cause = .schemaMismatch l.ours theirs) ∧
            (l.exchange timeout clock).1 = some (.error (.handshake cause))) ∧
        (l.peer.bytes.length < Handshake.size →
          (l.peer.ending = .ended → (l.exchange timeout clock).1 =
            some (.error (.handshake (.incomplete l.peer.bytes.length)))) ∧
          ∀ kind, l.peer.ending = .failed kind →
            (l.exchange timeout clock).1 = some (.error (.frame (.io kind)))))) := by
  have hsees := Negotiator.sees_waitedThrough l.reader
  have hpeer : l.peer = l.reader.outlook IoErrorKind.isWaitedThrough := by
    rw [Reader.outlook, hempty]
    rfl
  rw [hpeer]
  refine ⟨⟨?_, ?_⟩, ?_, exchange_split, fun hsame => ⟨fun cause => exchange_refused hsame, ?_⟩⟩
  · rintro ⟨session, link, hexchange⟩
    obtain ⟨hsame, hanswer, -⟩ := sent_of_exchange hexchange
    exact ⟨hsame, hanswer, matching_of_exchange hallowed hsees hexchange⟩
  · rintro ⟨hsame, hanswer, hmatch⟩
    obtain ⟨session, hexchange, -⟩ := exchange_matching hsame hanswer hallowed hsees hmatch
    exact ⟨session, session.link, hexchange⟩
  · intro session link hexchange
    obtain ⟨hsame, hanswer, hlink, hwrite⟩ := sent_of_exchange hexchange
    obtain ⟨-, -, haccepted⟩ := Writer.accepted_of_writeRaw hwrite
    have hmatch := matching_of_exchange hallowed hsees hexchange
    obtain ⟨session', hexchange', htheirs, hyields⟩ :=
      exchange_matching hsame hanswer hallowed hsees hmatch
    rw [hexchange'] at hexchange
    cases hexchange
    refine ⟨hlink, htheirs, haccepted, ?_⟩
    rw [hyields.bytes, hyields.ending, List.drop_left' (Handshake.length_encode l.ours)]
  · intro hanswer
    refine ⟨exchange_other hsame hanswer hallowed hsees, fun hshort => ?_⟩
    exact (exchange_short hsame hanswer hallowed hsees hshort).2

/-- The handshake of a peer in two pieces with failures between them, and two bytes behind it. -/
def stutter (hash : SchemaHash) : ReadScript :=
  ⟨[.deliver ((Handshake.encode hash).take 3), .fail .interrupted, .fail .wouldBlock,
    .deliver ((Handshake.encode hash).drop 3 ++ [7]), .deliver [8], .failForever .timedOut], 0,
    ⟨false, []⟩⟩

theorem outlook_stutter (hash : SchemaHash) : (stutter hash).outlook IoErrorKind.isWaitedThrough =
    ⟨Handshake.encode hash ++ [7, 8], .stalled⟩ := rfl

/-- A stream that takes three bytes, one byte, nine bytes, two bytes and then all that it is offered. -/
def shortWrites : WriteScript :=
  ⟨[.accept 3, .fail .interrupted, .accept 1, .fail .wouldBlock, .accept 9, .accept 2,
    .fail .interrupted], [.fail .interrupted], [], 0, 0, ⟨false, []⟩⟩

theorem willing_shortWrites : shortWrites.Willing where
  writes := by simp [shortWrites, WriteEvent.Takes, IoErrorKind.isRetriedWrite]
  flushes := by simp [shortWrites, FlushEvent.Passes, IoErrorKind.isRetriedWrite]

/-- A link of these two. -/
def stuttering : Link :=
  ⟨.new (stutter Schema.builtin.hash) .builtin DriveCommand.typeId .standard, shortWrites, .builtin,
    .standard⟩

theorem peer_stuttering : stuttering.peer = ⟨Handshake.encode stuttering.ours ++ [7, 8], .stalled⟩ :=
  outlook_stutter Schema.builtin.hash

theorem exchange_session_iff_stuttering :
    stuttering.reader.buffer = [] ∧ Clock.started.Allows standardTimeout ∧
      ∃ session link, stuttering.exchange standardTimeout .started = (some (.ok session), link) ∧
        session.theirs = Schema.builtin.hash ∧
        link.writer.stream.accepted = Handshake.encode Schema.builtin.hash ∧
        link.reader.outlook IoErrorKind.isWaitedThrough = ⟨[7, 8], .stalled⟩ := by
  have hempty : stuttering.reader.buffer = [] := rfl
  have hallowed : Clock.started.Allows standardTimeout := standardTimeout_allowed _
  have hours : stuttering.ours = Schema.builtin.hash := rfl
  have hbefore : stuttering.writer.stream.accepted = [] := rfl
  have hfront : stuttering.peer.bytes.take Handshake.size = Handshake.encode stuttering.ours := by
    rw [peer_stuttering, List.take_left' (Handshake.length_encode _)]
  obtain ⟨hiff, hsession, -⟩ := exchange_session_iff hempty hallowed
  obtain ⟨session, link, hexchange⟩ := hiff.mpr ⟨rfl, by decide, hfront⟩
  obtain ⟨-, htheirs, haccepted, hrest⟩ := hsession session link hexchange
  rw [peer_stuttering, List.drop_left' (Handshake.length_encode _)] at hrest
  rw [hours] at htheirs
  rw [hours, hbefore, List.nil_append] at haccepted
  exact ⟨hempty, hallowed, session, link, hexchange, htheirs, haccepted, hrest⟩

/-! ## When there is no answer -/

/-- **An exchange breaks off exactly if the own handshake was taken and its deadline is beyond what the
clock can tell.** Nothing has been read then, but the peer has been sent a whole handshake. -/
theorem exchange_breaksOff_iff :
    ((l.exchange timeout clock).1 = none ↔
      l.reader.schema.hash = l.ours ∧ l.writer.stream.answer Handshake.size = .ok () ∧
        clock.now.after? timeout = none) ∧
    ((l.exchange timeout clock).1 = none → ∃ writer,
      l.exchange timeout clock = (none, { l with writer }) ∧
        writer.stream.accepted = l.writer.stream.accepted ++ Handshake.encode l.ours) := by
  have hiff : (l.exchange timeout clock).1 = none ↔ l.reader.schema.hash = l.ours ∧
      l.writer.stream.answer Handshake.size = .ok () ∧ clock.now.after? timeout = none := by
    constructor
    · intro hnone
      obtain ⟨hsame, hanswer⟩ := sent_of_no_error fun cause h => by rw [hnone] at h; cases h
      obtain ⟨writer, -, hawait⟩ := exchange_sent hsame hanswer
      rw [hawait, awaitPeer_fst_eq_none] at hnone
      exact ⟨hsame, hanswer, hnone⟩
    · rintro ⟨hsame, hanswer, hbeyond⟩
      obtain ⟨writer, hexchange, -⟩ := exchange_beyond hsame hanswer hbeyond
      rw [hexchange]
  refine ⟨hiff, fun hnone => ?_⟩
  obtain ⟨hsame, hanswer, hbeyond⟩ := hiff.mp hnone
  exact exchange_beyond hsame hanswer hbeyond

/-- The longest timeout that 64 bits of seconds can hold. -/
example : (stuttering.exchange ⟨2 ^ 64 * 10 ^ 9 - 1⟩ .started).1 = none :=
  exchange_breaksOff_iff.1.mpr ⟨rfl, by decide, by decide⟩

end Link

end CommandLink
