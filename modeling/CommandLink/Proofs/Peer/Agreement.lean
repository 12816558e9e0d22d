import CommandLink.Proofs.Peer.Handshake
import Mathlib.Logic.Function.Basic

/-!
# Agreement of two negotiators

Two negotiators at the two ends of a connection, each with the bytes that are on their way to it
(`Endpoint`, `Negotiation`). An end starts and so sends its handshake, takes some of the bytes that
have arrived, or is closed, in any order of these events (`Negotiation.Event`).

* **The invariant** (`Endpoint.Keeps`): what an end has gathered and what is still on its way to it
  are, in this order, what its peer has sent. So an end decides only on the peer's whole handshake,
  and only an end that was closed is rejected for another reason.
* **One event** keeps it at the end that it happens at (`Keeps.start`, `Keeps.feed`, `Keeps.close`)
  and at the other one (`Keeps.start_peer`, `Keeps.of_peer`).
* `agreement`: whatever the order of the events and the pieces of the bytes, an end accepts only its
  own hash and rejects only another one; once all bytes have arrived both ends have decided alike.
-/

namespace CommandLink

/-- The verdict on a handshake that came through goes by its hash. -/
theorem Handshake.validate_encode_eq (ours theirs : SchemaHash) :
    validate (encode theirs) ours =
      if theirs ≠ ours then .error (.schemaMismatch ours theirs) else .ok theirs := by
  have hmagic : magic.length = 4 := rfl
  have hverdict := validate_parts hmagic (SchemaHash.length_toBytes theirs) [] ours
  rw [List.append_nil, SchemaHash.ofBytes_toBytes, if_neg (not_not.mpr rfl)] at hverdict
  exact hverdict

namespace Negotiator

variable {n next : Negotiator}

theorem start_eq_ok {hello : Bytes} (hstart : n.start = (.ok hello, next)) :
    n.state = .unestablished ∧ hello = Handshake.encode n.ours ∧
      next = ⟨n.ours, .awaitingPeer [] (by decide)⟩ := by
  unfold start at hstart
  split at hstart <;> cases hstart
  exact ⟨‹_›, rfl, rfl⟩

theorem start_eq_error {cause : HandshakeError} (hstart : n.start = (.error cause, next)) :
    next = n := by
  unfold start at hstart
  split at hstart <;> cases hstart <;> rfl

/-- A negotiator that has decided takes no more bytes. -/
theorem feed_of_remaining (hnone : n.remaining = 0) (bytes : Bytes) : (n.feed bytes).2 = n := by
  unfold feed
  split
  · rename_i received incomplete state
    rw [remaining, state] at hnone
    simp only at hnone
    omega
  · rfl
  · rfl

theorem ours_feed (n : Negotiator) (bytes : Bytes) : (n.feed bytes).2.ours = n.ours := by
  unfold feed
  split
  · simp only
    split
    · rfl
    · split <;> rfl
  · rfl
  · rfl

theorem ours_close (n : Negotiator) : n.close.2.ours = n.ours := by
  unfold close
  split <;> rfl

/-- Closing changes nothing about a decision. -/
theorem close_of_remaining (hnone : n.remaining = 0) : n.close.2 = n := by
  unfold close
  split
  · rfl
  · rfl
  · rename_i state
    rw [remaining, state] at hnone
    cases hnone
  · rename_i received incomplete state
    rw [remaining, state] at hnone
    simp only at hnone
    omega

/-- Closing before a decision rejects the peer for its missing bytes. -/
theorem close_of_undecided (hsome : n.remaining ≠ 0) :
    ∃ received, n.close.2.state = .rejected (.incomplete received) := by
  unfold close
  split
  · rename_i theirs state
    rw [remaining, state] at hsome
    exact absurd rfl hsome
  · rename_i cause state
    rw [remaining, state] at hsome
    exact absurd rfl hsome
  · exact ⟨_, rfl⟩
  · exact ⟨_, rfl⟩

end Negotiator

/-- The ends of a connection. -/
inductive Side where
  | left
  | right
deriving DecidableEq, Repr

/-- The end across the connection. -/
def Side.other : Side → Side
  | left => right
  | right => left

@[simp] theorem Side.other_ne (side : Side) : side.other ≠ side := by cases side <;> nofun

@[simp] theorem Side.other_other (side : Side) : side.other.other = side := by cases side <;> rfl

theorem Side.eq_or_eq_other (side side' : Side) : side' = side ∨ side' = side.other := by
  cases side <;> cases side' <;> simp [other]

theorem Side.forall_iff {p : Side → Prop} : (∀ side, p side) ↔ p .left ∧ p .right := by
  refine ⟨fun h => ⟨h _, h _⟩, fun ⟨hleft, hright⟩ side => ?_⟩
  cases side
  · exact hleft
  · exact hright

instance {p : Side → Prop} [DecidablePred p] : Decidable (∀ side, p side) :=
  decidable_of_iff _ Side.forall_iff.symm

/-- One end of a connection during the handshakes. -/
structure Endpoint where
  negotiator : Negotiator
  /-- The bytes on their way to this end, in order. -/
  inflight : Bytes
  /-- Its handshake has been sent. -/
  started : Bool
  /-- It was told that no more bytes come. -/
  closed : Bool
deriving DecidableEq, Repr

namespace Endpoint

/-- An end at which nothing has happened. -/
def new (ours : SchemaHash) : Endpoint := ⟨.new ours, [], false, false⟩

/-- The own schema hash. -/
def ours (e : Endpoint) : SchemaHash := e.negotiator.ours

/-- What has been sent to the other end. -/
def sent (e : Endpoint) : Bytes := if e.started then Handshake.encode e.ours else []

/-- Hands the negotiator so many of the bytes that have arrived. It takes what it still needs, and the
others stay. -/
def feed (e : Endpoint) (count : Nat) : Endpoint :=
  { e with
    negotiator := (e.negotiator.feed (e.inflight.take count)).2
    inflight := e.inflight.drop (min count e.negotiator.remaining) }

/-- Tells the negotiator that no more bytes come. -/
def close (e : Endpoint) : Endpoint :=
  { e with negotiator := e.negotiator.close.2, closed := true }

end Endpoint

/-- Both ends of a connection. -/
abbrev Negotiation := Side → Endpoint

namespace Negotiation

/-- What happens at an end. -/
inductive Event where
  | start (side : Side)
  | feed (side : Side) (count : Nat)
  | close (side : Side)
deriving DecidableEq, Repr

/-- Nothing has happened between peers with these hashes. -/
def between (hash : Side → SchemaHash) : Negotiation := fun side => .new (hash side)

/-- What can happen next: an end that has not sent its handshake starts, one that has is fed some of
the bytes that have arrived, and any end is closed. -/
def Enabled (n : Negotiation) : Event → Prop
  | .start side => (n side).started = false
  | .feed side count => (n side).started = true ∧ 0 < count ∧ count ≤ (n side).inflight.length
  | .close _ => True

instance (n : Negotiation) : (e : Event) → Decidable (n.Enabled e)
  | .start side => inferInstanceAs (Decidable ((n side).started = false))
  | .feed side count => inferInstanceAs
      (Decidable ((n side).started = true ∧ 0 < count ∧ count ≤ (n side).inflight.length))
  | .close _ => inferInstanceAs (Decidable True)

/-- Both ends after an event. -/
def next (n : Negotiation) : Event → Negotiation
  | .start side =>
    match (n side).negotiator.start with
    | (.ok hello, negotiator) =>
      Function.update (Function.update n side { n side with negotiator, started := true })
        side.other { n side.other with inflight := (n side.other).inflight ++ hello }
    | (.error _, negotiator) => Function.update n side { n side with negotiator }
  | .feed side count => Function.update n side ((n side).feed count)
  | .close side => Function.update n side (n side).close

/-- Both ends after some events, if each was possible. -/
def run (n : Negotiation) : List Event → Option Negotiation
  | [] => some n
  | e :: events => if n.Enabled e then (n.next e).run events else none

/-- Both handshakes have been sent and have arrived, and no end was closed. -/
def Settled (n : Negotiation) : Prop :=
  ∀ side, (n side).started = true ∧ (n side).inflight = [] ∧ (n side).closed = false

instance (n : Negotiation) : Decidable n.Settled := inferInstanceAs (Decidable (∀ _, _))

end Negotiation

/-! ## The invariant -/

namespace Endpoint

/-- How far an end has come with what its peer has sent. -/
inductive Keeps (own peer : Endpoint) : Prop where
  | idle (state : own.negotiator.state = .unestablished) (silent : own.started = false)
      (bytes : own.inflight = peer.sent)
  | waiting {received : Bytes} {incomplete : received.length < Handshake.size}
      (state : own.negotiator.state = .awaitingPeer received incomplete)
      (bytes : received ++ own.inflight = peer.sent)
  | accepted (state : own.negotiator.state = .validated peer.ours) (heard : peer.started = true)
      (same : own.ours = peer.ours)
  | refused (state : own.negotiator.state = .rejected (.schemaMismatch own.ours peer.ours))
      (heard : peer.started = true) (differ : own.ours ≠ peer.ours)
  | ended {received : Nat} (state : own.negotiator.state = .rejected (.incomplete received))
      (closed : own.closed = true)

variable {own peer peer' : Endpoint}

/-- Nothing else of the peer matters than what it has sent. -/
theorem Keeps.of_peer (hkeeps : own.Keeps peer) (hours : peer'.ours = peer.ours)
    (hstarted : peer'.started = peer.started) : own.Keeps peer' := by
  have hsent : peer'.sent = peer.sent := by rw [sent, sent, hours, hstarted]
  cases hkeeps with
  | idle state silent bytes => exact .idle state silent (hsent ▸ bytes)
  | waiting state bytes => exact .waiting state (hsent ▸ bytes)
  | accepted state heard same => exact .accepted (hours ▸ state) (hstarted ▸ heard) (hours ▸ same)
  | refused state heard differ => exact .refused (hours ▸ state) (hstarted ▸ heard) (hours ▸ differ)
  | ended state closed => exact .ended state closed

/-- The peer starts: its handshake is on its way. -/
theorem Keeps.start_peer (hkeeps : own.Keeps peer) (hsilent : peer.started = false)
    (hours : peer'.ours = peer.ours) (hstarted : peer'.started = true) :
    Keeps { own with inflight := own.inflight ++ Handshake.encode peer.ours } peer' := by
  have hnothing : peer.sent = [] := by rw [sent, hsilent]; rfl
  have hsent : peer'.sent = Handshake.encode peer.ours := by rw [sent, hstarted, hours]; rfl
  cases hkeeps with
  | idle state silent bytes =>
    refine .idle state silent ?_
    rw [bytes, hnothing, hsent, List.nil_append]
  | waiting state bytes =>
    refine .waiting state ?_
    rw [← List.append_assoc, bytes, hnothing, hsent, List.nil_append]
  | accepted state heard same => exact absurd (hsilent.symm.trans heard) nofun
  | refused state heard differ => exact absurd (hsilent.symm.trans heard) nofun
  | ended state closed => exact .ended state closed

/-- An end starts: it waits for the peer's handshake. -/
theorem Keeps.start {hello : Bytes} {negotiator : Negotiator} (hkeeps : own.Keeps peer)
    (hstart : own.negotiator.start = (.ok hello, negotiator)) :
    hello = Handshake.encode own.ours ∧ negotiator.ours = own.ours ∧
      Keeps { own with negotiator, started := true } peer := by
  obtain ⟨hstate, rfl, rfl⟩ := Negotiator.start_eq_ok hstart
  cases hkeeps with
  | idle state silent bytes => exact ⟨rfl, rfl, .waiting rfl bytes⟩
  | waiting state | accepted state | refused state | ended state =>
    rw [hstate] at state
    cases state

theorem length_sent_le (e : Endpoint) : e.sent.length ≤ Handshake.size := by
  unfold sent
  split
  · exact Nat.le_of_eq (Handshake.length_encode _)
  · exact Nat.zero_le _

/-- As many bytes of what an end has sent as a handshake has are its whole handshake. -/
theorem whole_of_gathered {e : Endpoint} {gathered rest : Bytes} (hsplit : gathered ++ rest = e.sent)
    (hall : gathered.length = Handshake.size) :
    e.started = true ∧ gathered = Handshake.encode e.ours := by
  have hlen := congrArg List.length hsplit
  have hmost := e.length_sent_le
  rw [List.length_append, hall] at hlen
  obtain rfl : rest = [] := List.eq_nil_of_length_eq_zero (by omega)
  rw [List.append_nil] at hsplit
  subst hsplit
  unfold sent at hall ⊢
  split at hall
  · exact ⟨‹_›, if_pos ‹_›⟩
  · cases hall

/-- An end that has decided leaves the bytes where they are. -/
theorem feed_of_remaining (hnone : own.negotiator.remaining = 0) (count : Nat) :
    own.feed count = own := by
  rw [feed, hnone, Nat.min_zero, List.drop_zero, Negotiator.feed_of_remaining hnone]

/-- An end is fed: it gathers more of the peer's handshake, or has all of it and decides. -/
theorem Keeps.feed {count : Nat} (hkeeps : own.Keeps peer) (hstarted : own.started = true)
    (hcount : count ≤ own.inflight.length) : (own.feed count).Keeps peer := by
  cases hkeeps with
  | idle state silent => exact absurd (silent.symm.trans hstarted) nofun
  | @waiting received incomplete state bytes =>
    have hlen := congrArg List.length bytes
    have hmost := peer.length_sent_le
    have hneeded : own.negotiator.remaining = Handshake.size - received.length := by
      rw [Negotiator.remaining, state]
    rw [List.length_append] at hlen
    have hfits : (own.inflight.take count).length ≤ own.negotiator.remaining := by
      rw [List.length_take]
      omega
    have hsplit : received ++ own.inflight.take count ++ own.inflight.drop count = peer.sent := by
      rw [List.append_assoc, List.take_append_drop, bytes]
    have hnegotiator : own.negotiator = ⟨own.ours, .awaitingPeer received incomplete⟩ := state ▸ rfl
    unfold Endpoint.feed
    rw [Nat.min_eq_left (by omega : count ≤ own.negotiator.remaining)]
    rcases hresult : own.negotiator.feed (own.inflight.take count) with ⟨result, fed⟩
    rw [hnegotiator] at hfits hresult
    rcases Negotiator.feed_awaiting hfits hresult with
      ⟨hless, -, rfl⟩ | ⟨hall, ⟨theirs, hverdict, -, rfl⟩ | ⟨cause, hverdict, -, rfl⟩⟩
    · exact .waiting rfl hsplit
    · obtain ⟨hheard, hwhole⟩ := whole_of_gathered hsplit hall
      rw [hwhole, Handshake.validate_encode_eq] at hverdict
      split at hverdict <;> cases hverdict
      rename_i hsame
      exact .accepted rfl hheard (not_not.mp hsame).symm
    · obtain ⟨hheard, hwhole⟩ := whole_of_gathered hsplit hall
      rw [hwhole, Handshake.validate_encode_eq] at hverdict
      split at hverdict <;> cases hverdict
      rename_i hdiffer
      exact .refused rfl hheard hdiffer.symm
  | accepted state heard same =>
    rw [feed_of_remaining (by rw [Negotiator.remaining, state])]
    exact .accepted state heard same
  | refused state heard differ =>
    rw [feed_of_remaining (by rw [Negotiator.remaining, state])]
    exact .refused state heard differ
  | ended state closed =>
    rw [feed_of_remaining (by rw [Negotiator.remaining, state])]
    exact .ended state closed

/-- An end is closed: if it has not decided, it rejects the peer for its missing bytes. -/
theorem Keeps.close (hkeeps : own.Keeps peer) : own.close.Keeps peer := by
  have hundecided (hsome : own.negotiator.remaining ≠ 0) : own.close.Keeps peer := by
    obtain ⟨received, hrejected⟩ := Negotiator.close_of_undecided hsome
    exact .ended hrejected rfl
  have hdecided (hnone : own.negotiator.remaining = 0) : own.close = { own with closed := true } := by
    rw [Endpoint.close, Negotiator.close_of_remaining hnone]
  cases hkeeps with
  | idle state =>
    refine hundecided ?_
    rw [Negotiator.remaining, state]
    exact Nat.succ_ne_zero _
  | @waiting received incomplete state =>
    refine hundecided ?_
    rw [Negotiator.remaining, state]
    simp only
    omega
  | accepted state heard same =>
    rw [hdecided (by rw [Negotiator.remaining, state])]
    exact .accepted state heard same
  | refused state heard differ =>
    rw [hdecided (by rw [Negotiator.remaining, state])]
    exact .refused state heard differ
  | ended state closed =>
    rw [hdecided (by rw [Negotiator.remaining, state])]
    exact .ended state rfl

/-! ## What an end decides -/

theorem Keeps.of_validated {theirs : SchemaHash} (hkeeps : own.Keeps peer)
    (hstate : own.negotiator.state = .validated theirs) : own.ours = peer.ours := by
  rcases hkeeps with state | state | ⟨state, -, same⟩ | state | state <;>
    rw [hstate] at state <;> cases state
  exact same

theorem Keeps.of_schemaMismatch {ours theirs : SchemaHash} (hkeeps : own.Keeps peer)
    (hstate : own.negotiator.state = .rejected (.schemaMismatch ours theirs)) :
    own.ours ≠ peer.ours ∧ ours = own.ours ∧ theirs = peer.ours := by
  rcases hkeeps with state | state | state | ⟨state, -, differ⟩ | state <;>
    rw [hstate] at state <;> cases state
  exact ⟨differ, rfl, rfl⟩

theorem Keeps.ne_badMagic (hkeeps : own.Keeps peer) (found : Bytes) :
    own.negotiator.state ≠ .rejected (.badMagic found) := by
  intro hstate
  rcases hkeeps with state | state | state | state | state <;>
    rw [hstate] at state <;> cases state

/-- **An end to which the whole handshake of its peer has come has decided.** -/
theorem Keeps.decided (hkeeps : own.Keeps peer) (hstarted : own.started = true)
    (hheard : peer.started = true) (harrived : own.inflight = []) (hopen : own.closed = false) :
    (own.ours = peer.ours ∧ own.negotiator.state = .validated peer.ours) ∨
      (own.ours ≠ peer.ours ∧
        own.negotiator.state = .rejected (.schemaMismatch own.ours peer.ours)) := by
  cases hkeeps with
  | idle state silent => exact absurd (silent.symm.trans hstarted) nofun
  | @waiting received incomplete state bytes =>
    rw [harrived, List.append_nil, sent, if_pos hheard] at bytes
    rw [bytes, Handshake.length_encode] at incomplete
    exact absurd incomplete (Nat.lt_irrefl _)
  | accepted state heard same => exact .inl ⟨same, state⟩
  | refused state heard differ => exact .inr ⟨differ, state⟩
  | ended state closed => exact absurd (hopen.symm.trans closed) nofun

end Endpoint

/-! ## Runs -/

namespace Negotiation

variable {hash : Side → SchemaHash} {n : Negotiation}

/-- Each end has its hash and is as far as what the other one has sent allows. -/
structure Consistent (hash : Side → SchemaHash) (n : Negotiation) : Prop where
  ours : ∀ side, (n side).ours = hash side
  keeps : ∀ side, (n side).Keeps (n side.other)

theorem consistent_between (hash : Side → SchemaHash) : Consistent hash (between hash) :=
  ⟨fun _ => rfl, fun _ => .idle rfl rfl rfl⟩

/-- The two ends, seen from one of them. -/
theorem consistent_of_pair (side : Side) {own peer : Endpoint} (hown : n side = own)
    (hpeer : n side.other = peer) (hours : own.ours = hash side)
    (hours' : peer.ours = hash side.other) (hkeeps : own.Keeps peer) (hkeeps' : peer.Keeps own) :
    Consistent hash n := by
  subst hown hpeer
  refine ⟨fun s => ?_, fun s => ?_⟩
  · rcases side.eq_or_eq_other s with rfl | rfl
    · exact hours
    · exact hours'
  · rcases side.eq_or_eq_other s with rfl | rfl
    · exact hkeeps
    · rw [Side.other_other]
      exact hkeeps'

/-- An event at one end alone. -/
theorem Consistent.update (hconsistent : Consistent hash n) {side : Side} {e : Endpoint}
    (hours : e.ours = (n side).ours) (hstarted : e.started = (n side).started)
    (hkeeps : e.Keeps (n side.other)) : Consistent hash (Function.update n side e) := by
  have hpeer := hconsistent.keeps side.other
  rw [Side.other_other] at hpeer
  exact consistent_of_pair side (Function.update_self ..) (Function.update_of_ne side.other_ne ..)
    (hours.trans (hconsistent.ours side)) (hconsistent.ours side.other) hkeeps
    (hpeer.of_peer hours hstarted)

/-- An end starts. -/
theorem Consistent.start (hconsistent : Consistent hash n) {side : Side}
    (hsilent : (n side).started = false) : Consistent hash (n.next (.start side)) := by
  have hown := hconsistent.keeps side
  have hpeer := hconsistent.keeps side.other
  rw [Side.other_other] at hpeer
  rcases hstart : (n side).negotiator.start with ⟨_ | hello, negotiator⟩
  · obtain rfl := Negotiator.start_eq_error hstart
    simp only [Negotiation.next, hstart]
    exact hconsistent.update rfl rfl hown
  · obtain ⟨rfl, hours, hstarts⟩ := hown.start hstart
    simp only [Negotiation.next, hstart]
    exact consistent_of_pair side
      ((Function.update_of_ne side.other_ne.symm ..).trans (Function.update_self ..))
      (Function.update_self ..) (hours.trans (hconsistent.ours side)) (hconsistent.ours side.other)
      (hstarts.of_peer rfl rfl) (hpeer.start_peer hsilent hours rfl)

/-- **Every event keeps the invariant.** -/
theorem Consistent.next (hconsistent : Consistent hash n) {e : Event} (henabled : n.Enabled e) :
    Consistent hash (n.next e) := by
  cases e with
  | start side => exact hconsistent.start henabled
  | feed side count =>
    obtain ⟨hstarted, -, hcount⟩ := henabled
    exact hconsistent.update ((n side).negotiator.ours_feed _) rfl
      ((hconsistent.keeps side).feed hstarted hcount)
  | close side =>
    exact hconsistent.update (n side).negotiator.ours_close rfl (hconsistent.keeps side).close

/-- Every run keeps the invariant. -/
theorem Consistent.run {events : List Event} {n' : Negotiation} (hconsistent : Consistent hash n)
    (hrun : n.run events = some n') : Consistent hash n' := by
  induction events generalizing n with
  | nil =>
    cases hrun
    exact hconsistent
  | cons e events ih =>
    unfold Negotiation.run at hrun
    split at hrun
    · exact ih (hconsistent.next ‹_›) hrun
    · cases hrun

/-- **Two negotiators agree.** Whatever the order of the events and the pieces in which the bytes
arrive, an end accepts its peer only if both have the same hash and rejects it for its hash only if
they have not, with the own hash and that of the peer; no end ever sees other letters than those of a
handshake. Once both handshakes have arrived, and neither end was closed, both ends have decided, and
alike. -/
theorem agreement {events : List Event} (hrun : (between hash).run events = some n) :
    (∀ side theirs, (n side).negotiator.state = .validated theirs → hash .left = hash .right) ∧
    (∀ side ours theirs,
      (n side).negotiator.state = .rejected (.schemaMismatch ours theirs) →
        hash .left ≠ hash .right ∧ ours = hash side ∧ theirs = hash side.other) ∧
    (∀ side found, (n side).negotiator.state ≠ .rejected (.badMagic found)) ∧
    (n.Settled →
      (hash .left = hash .right →
        ∀ side, (n side).negotiator.state = .validated (hash side.other)) ∧
      (hash .left ≠ hash .right → ∀ side, (n side).negotiator.state =
        .rejected (.schemaMismatch (hash side) (hash side.other)))) := by
  have hconsistent := (consistent_between hash).run hrun
  have hsame (side : Side) : hash side = hash side.other ↔ hash .left = hash .right := by
    cases side
    · exact Iff.rfl
    · exact eq_comm
  have hours := hconsistent.ours
  refine ⟨fun side theirs hstate => ?_, fun side ours theirs hstate => ?_,
    fun side found => (hconsistent.keeps side).ne_badMagic found, fun hsettled => ?_⟩
  · have hagree := (hconsistent.keeps side).of_validated hstate
    rwa [hours, hours, hsame] at hagree
  · obtain ⟨hdiffer, hown, hpeer⟩ := (hconsistent.keeps side).of_schemaMismatch hstate
    rw [hours, hours, Ne, hsame] at hdiffer
    exact ⟨hdiffer, hown.trans (hours side), hpeer.trans (hours side.other)⟩
  · have hdecided (side : Side) := by
      obtain ⟨hstarted, harrived, hopen⟩ := hsettled side
      exact (hconsistent.keeps side).decided hstarted (hsettled side.other).1 harrived hopen
    simp only [hours, Ne, hsame] at hdecided
    refine ⟨fun hequal side => ?_, fun hdiffer side => ?_⟩
    · exact ((hdecided side).resolve_right fun h => h.1 hequal).2
    · exact ((hdecided side).resolve_left fun h => hdiffer h.1).2

/-- Both ends start, and the bytes arrive in pieces that end in the middle of a handshake. -/
def crossing : List Event :=
  [.start .left, .start .right, .feed .right 3, .feed .left 7, .feed .right 5, .feed .left 1]

/-- A peer with this hash on the left. -/
def facing (theirs : SchemaHash) : Side → SchemaHash
  | .left => ⟨0x12345678⟩
  | .right => theirs

theorem agreement_crossing :
    (∃ n, (between (facing ⟨0x12345678⟩)).run crossing = some n ∧ n.Settled ∧
      ∀ side, (n side).negotiator.state = .validated ⟨0x12345678⟩) ∧
    ∃ n, (between (facing ⟨0⟩)).run crossing = some n ∧ n.Settled ∧
      (n .left).negotiator.state = .rejected (.schemaMismatch ⟨0x12345678⟩ ⟨0⟩) ∧
      (n .right).negotiator.state = .rejected (.schemaMismatch ⟨0⟩ ⟨0x12345678⟩) := by
  have hequal : ((between (facing ⟨0x12345678⟩)).run crossing).any (decide <| Settled ·) = true := by
    decide +kernel
  have hdiffer : ((between (facing ⟨0⟩)).run crossing).any (decide <| Settled ·) = true := by
    decide +kernel
  simp only [Option.any_eq_true, decide_eq_true_eq] at hequal hdiffer
  obtain ⟨n, hrun, hsettled⟩ := hequal
  obtain ⟨n', hrun', hsettled'⟩ := hdiffer
  obtain ⟨-, -, -, hdecided⟩ := agreement hrun
  obtain ⟨-, -, -, hdecided'⟩ := agreement hrun'
  have hrejected := (hdecided' hsettled').2 (by decide)
  refine ⟨⟨n, hrun, hsettled, fun side => ?_⟩,
    n', hrun', hsettled', hrejected .left, hrejected .right⟩
  rw [(hdecided hsettled).1 rfl side]
  cases side <;> rfl

end Negotiation

end CommandLink
