import CommandLink.Peer.Handshake

/-!
# Negotiators

A negotiator is one side of a handshake in progress, without a stream of its own:

`unestablished` - start → `awaitingPeer` - eight bytes → `validated` or `rejected`

The peer's bytes may come in any pieces. While it waits, a negotiator holds fewer than eight of
them, and it takes no more than are missing.
-/

namespace CommandLink

/-- Where one side of a handshake stands. -/
inductive NegotiatorState where
  /-- Nothing has been sent. -/
  | unestablished
  /-- The own handshake has been sent and so much of the peer's has come in. -/
  | awaitingPeer (received : Bytes) (incomplete : received.length < Handshake.size)
  /-- The peer's handshake matched; packets may flow. -/
  | validated (theirs : SchemaHash)
  /-- The connection must be closed without packets. -/
  | rejected (cause : HandshakeError)
deriving DecidableEq, Repr

/-- The stage of a state. -/
def NegotiatorState.stage : NegotiatorState → HandshakeStage
  | unestablished => .unestablished
  | awaitingPeer .. => .awaitingPeer
  | validated _ => .validated
  | rejected _ => .rejected

/-- One side of a handshake. -/
structure Negotiator where
  /-- The own schema hash. -/
  ours : SchemaHash
  state : NegotiatorState
deriving DecidableEq, Repr

namespace Negotiator

/-- A negotiator that has sent nothing. -/
def new (ours : SchemaHash) : Negotiator := ⟨ours, .unestablished⟩

/-- Whether the peer's handshake matched. -/
def isValidated (n : Negotiator) : Bool := n.state.stage == .validated

/-- Begins the handshake: the bytes to send. -/
def start (n : Negotiator) : Except HandshakeError Bytes × Negotiator :=
  match n.state with
  | .unestablished => (.ok (Handshake.encode n.ours), ⟨n.ours, .awaitingPeer [] (by decide)⟩)
  | .rejected _ => (.error .rejected, n)
  | state => (.error (.outOfOrder .start state.stage), n)

/-- The bytes that are still needed from the peer. -/
def remaining (n : Negotiator) : Nat :=
  match n.state with
  | .unestablished => Handshake.size
  | .awaitingPeer received _ => Handshake.size - received.length
  | _ => 0

/-- Takes bytes from the peer: how many were taken. The eighth decides. -/
def feed (n : Negotiator) (bytes : Bytes) : Except HandshakeError Nat × Negotiator :=
  match n.state with
  | .awaitingPeer received _ =>
    let taken := bytes.take (Handshake.size - received.length)
    let all := received ++ taken
    if incomplete : all.length < Handshake.size then
      (.ok taken.length, ⟨n.ours, .awaitingPeer all incomplete⟩)
    else
      match Handshake.validate all n.ours with
      | .ok theirs => (.ok taken.length, ⟨n.ours, .validated theirs⟩)
      | .error cause => (.error cause, ⟨n.ours, .rejected cause⟩)
  | .rejected _ => (.error .rejected, n)
  | state => (.error (.outOfOrder .feed state.stage), n)

/-- The peer's stream has ended: the peer's hash, if its handshake had matched. -/
def close (n : Negotiator) : Except HandshakeError SchemaHash × Negotiator :=
  match n.state with
  | .validated theirs => (.ok theirs, n)
  | .rejected cause => (.error cause, n)
  | .unestablished => (.error (.incomplete 0), ⟨n.ours, .rejected (.incomplete 0)⟩)
  | .awaitingPeer received _ =>
    (.error (.incomplete received.length), ⟨n.ours, .rejected (.incomplete received.length)⟩)

/-- What is fed without an error brings the end nearer. -/
theorem remaining_feed {n next : Negotiator} {bytes : Bytes} {taken : Nat}
    (h : n.feed bytes = (.ok taken, next)) :
    next.remaining ≤ n.remaining ∧ (bytes ≠ [] → next.remaining < n.remaining) := by
  rw [feed] at h
  split at h
  · rename_i received incomplete hs
    have hn : n.remaining = Handshake.size - received.length := by rw [remaining, hs]
    simp only at h
    split at h
    · simp only [Prod.mk.injEq] at h
      rw [hn, ← h.2]
      simp only [remaining, List.length_append, List.length_take]
      refine ⟨by omega, fun hne => ?_⟩
      have := List.length_pos_iff.2 hne
      omega
    · split at h <;> simp only [Prod.mk.injEq, reduceCtorEq, false_and] at h
      rw [hn, ← h.2]
      simp only [remaining]
      omega
  · simp at h
  · simp at h

end Negotiator

end CommandLink
