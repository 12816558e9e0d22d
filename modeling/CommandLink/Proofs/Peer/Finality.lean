import CommandLink.Proofs.Peer.Handshake

/-!
# A negotiator decides once

Calls on one negotiator, in any order and with any bytes (`Request`, `run`), each with its answer
(`Call`). What a call took from the peer is read off its answer (`Call.bytes`).

* **The invariant** (`Stands`): the bytes that were taken are those that a waiting negotiator holds
  and the own handshake if it has accepted its peer; and it waits or has accepted only if it has begun.
* **One call** keeps it (`Stands.serve`), and once there is a decision every call leaves it as it is
  and is answered in the same way (`Decided`).
* `run_decides_once`: what follows for every list of requests.
-/

namespace CommandLink

/-- Whether a call came at the wrong time, so that it says nothing about the peer. -/
def HandshakeError.isMisuse : HandshakeError → Bool
  | .rejected => true
  | .outOfOrder .. => true
  | _ => false

namespace Negotiator

/-- What a negotiator is asked. -/
inductive Request where
  | start
  | feed (bytes : Bytes)
  | close
deriving DecidableEq, Repr

/-- What a negotiator answers. -/
inductive Reply where
  /-- The bytes to send. -/
  | hello (result : Except HandshakeError Bytes)
  /-- How many bytes were taken. -/
  | taken (result : Except HandshakeError Nat)
  /-- The peer's hash. -/
  | verdict (result : Except HandshakeError SchemaHash)

/-- The error that is answered. -/
def Reply.error? : Reply → Option HandshakeError
  | hello (.error cause) => some cause
  | taken (.error cause) => some cause
  | verdict (.error cause) => some cause
  | _ => none

/-- The answer to a request. -/
def serve (n : Negotiator) : Request → Reply × Negotiator
  | .start => (.hello n.start.1, n.start.2)
  | .feed bytes => (.taken (n.feed bytes).1, (n.feed bytes).2)
  | .close => (.verdict n.close.1, n.close.2)

/-- A request with its answer. -/
structure Call where
  request : Request
  reply : Reply

/-- The bytes that a call took from the peer, as many of them as it says. -/
def Call.bytes : Call → Bytes
  | ⟨.feed bytes, .taken (.ok count)⟩ => bytes.take count
  | _ => []

/-- The call that begins the handshake. -/
def Call.beginning (ours : SchemaHash) : Call := ⟨.start, .hello (.ok (Handshake.encode ours))⟩

/-- The bytes that were taken from the peer by some calls. -/
def accepted (calls : List Call) : Bytes := calls.flatMap Call.bytes

/-- Answers requests one after the other. -/
def run (n : Negotiator) : List Request → List Call × Negotiator
  | [] => ([], n)
  | request :: requests =>
    (⟨request, (n.serve request).1⟩ :: ((n.serve request).2.run requests).1,
      ((n.serve request).2.run requests).2)

/-- The answer once there is a decision: it is told to the one who closes, and everything else is
refused. -/
def Request.answer (verdict : Except HandshakeError SchemaHash)
    (refusal : HandshakeOperation → HandshakeError) : Request → Reply
  | start => .hello (.error (refusal .start))
  | feed _ => .taken (.error (refusal .feed))
  | close => .verdict verdict

/-- Whatever it is asked from now on, it stays as it is, has the same answers and takes no bytes. -/
structure Decided (n : Negotiator) (verdict : Except HandshakeError SchemaHash)
    (refusal : HandshakeOperation → HandshakeError) : Prop where
  run : ∀ requests, n.run requests =
    (requests.map fun request => ⟨request, request.answer verdict refusal⟩, n)
  accepted : ∀ requests, accepted (n.run requests).1 = []

variable {n next : Negotiator} {ours theirs : SchemaHash} {cause : HandshakeError}
  {calls : List Call} {request : Request} {requests : List Request}

theorem accepted_concat (calls : List Call) (c : Call) :
    accepted (calls ++ [c]) = accepted calls ++ c.bytes := by
  unfold accepted
  rw [List.flatMap_append, List.flatMap_singleton]

/-- No answer of a negotiator that has decided says that bytes were taken. -/
theorem bytes_answer (verdict : Except HandshakeError SchemaHash)
    (refusal : HandshakeOperation → HandshakeError) (request : Request) :
    Call.bytes ⟨request, request.answer verdict refusal⟩ = [] := by
  cases request <;> rfl

/-! ## After the decision -/

theorem serve_validated (hstate : n.state = .validated theirs) (request : Request) :
    n.serve request = (request.answer (.ok theirs) (.outOfOrder · .validated), n) := by
  obtain ⟨ours, _⟩ := n
  subst hstate
  cases request <;> rfl

theorem serve_rejected (hstate : n.state = .rejected cause) (request : Request) :
    n.serve request = (request.answer (.error cause) fun _ => .rejected, n) := by
  obtain ⟨ours, _⟩ := n
  subst hstate
  cases request <;> rfl

/-- A negotiator that every call leaves as it is has decided. -/
theorem decided_of_serve {verdict : Except HandshakeError SchemaHash}
    {refusal : HandshakeOperation → HandshakeError}
    (hserve : ∀ request, n.serve request = (request.answer verdict refusal, n)) :
    Decided n verdict refusal := by
  have hrun (requests : List Request) : n.run requests =
      (requests.map fun request => ⟨request, request.answer verdict refusal⟩, n) := by
    induction requests with
    | nil => rfl
    | cons request requests ih => rw [run, hserve, ih, List.map_cons]
  refine ⟨hrun, fun requests => ?_⟩
  rw [hrun, accepted, List.flatMap_map]
  exact List.flatMap_eq_nil_iff.mpr fun request _ => bytes_answer verdict refusal request

/-! ## The invariant -/

/-- Where a negotiator with this hash stands after some calls. -/
inductive Stands (ours : SchemaHash) (calls : List Call) : Negotiator → Prop where
  | unestablished (bytes : accepted calls = []) : Stands ours calls ⟨ours, .unestablished⟩
  | awaiting {received : Bytes} {incomplete : received.length < Handshake.size}
      (begun : .beginning ours ∈ calls) (bytes : accepted calls = received) :
      Stands ours calls ⟨ours, .awaitingPeer received incomplete⟩
  | validated (begun : .beginning ours ∈ calls) (bytes : accepted calls = Handshake.encode ours) :
      Stands ours calls ⟨ours, .validated ours⟩
  | rejected (cause : HandshakeError) : Stands ours calls ⟨ours, .rejected cause⟩

/-- A call that takes nothing and changes nothing. -/
theorem Stands.concat (hstands : Stands ours calls n) {c : Call} (hnothing : c.bytes = []) :
    Stands ours (calls ++ [c]) n := by
  have hbytes : accepted (calls ++ [c]) = accepted calls := by
    rw [accepted_concat, hnothing, List.append_nil]
  cases hstands with
  | unestablished bytes => exact .unestablished (hbytes.trans bytes)
  | awaiting begun bytes => exact .awaiting (List.mem_append_left _ begun) (hbytes.trans bytes)
  | validated begun bytes => exact .validated (List.mem_append_left _ begun) (hbytes.trans bytes)
  | rejected cause => exact .rejected cause

/-- No more bytes are looked at than are missing. -/
theorem feed_take_remaining (n : Negotiator) (bytes : Bytes) :
    n.feed (bytes.take n.remaining) = n.feed bytes := by
  obtain ⟨ours, state⟩ := n
  cases state with
  | awaitingPeer received incomplete =>
    unfold feed remaining
    simp only [List.take_take, Nat.min_self]
  | unestablished | validated | rejected => rfl

/-- Feeding a negotiator that waits, with as many bytes as there are. -/
theorem feed_front {received bytes : Bytes} {waiting : received.length < Handshake.size}
    {result : Except HandshakeError Nat}
    (hfeed : feed ⟨ours, .awaitingPeer received waiting⟩ bytes = (result, next)) :
    ∃ taken, bytes.take taken.length = taken ∧
      ((∃ hless : (received ++ taken).length < Handshake.size,
          result = .ok taken.length ∧ next = ⟨ours, .awaitingPeer (received ++ taken) hless⟩) ∨
        (received ++ taken).length = Handshake.size ∧
          ((∃ theirs, Handshake.validate (received ++ taken) ours = .ok theirs ∧
              result = .ok taken.length ∧ next = ⟨ours, .validated theirs⟩) ∨
            ∃ cause, Handshake.validate (received ++ taken) ours = .error cause ∧
              result = .error cause ∧ next = ⟨ours, .rejected cause⟩)) := by
  rw [← feed_take_remaining] at hfeed
  refine ⟨_, ?_, feed_awaiting ?_ hfeed⟩
  · rw [List.length_take, ← List.take_eq_take_min]
  · rw [List.length_take]
    exact Nat.min_le_left ..

/-- A negotiator that waits is fed: it gathers more of the peer's handshake, or decides on it. -/
theorem Stands.feed {received bytes : Bytes} {waiting : received.length < Handshake.size}
    {result : Except HandshakeError Nat} (begun : .beginning ours ∈ calls)
    (hreceived : accepted calls = received)
    (hfeed : Negotiator.feed ⟨ours, .awaitingPeer received waiting⟩ bytes = (result, next)) :
    Stands ours (calls ++ [⟨.feed bytes, .taken result⟩]) next := by
  have hbegun (c : Call) : .beginning ours ∈ calls ++ [c] := List.mem_append_left _ begun
  obtain ⟨taken, hfront, hfed⟩ := feed_front hfeed
  have haccepted : accepted (calls ++ [⟨.feed bytes, .taken (.ok taken.length)⟩]) =
      received ++ taken := by
    rw [accepted_concat, hreceived, Call.bytes, hfront]
  rcases hfed with ⟨hless, rfl, rfl⟩ | ⟨hall, ⟨theirs, hverdict, rfl, rfl⟩ | ⟨cause, -, rfl, rfl⟩⟩
  · exact .awaiting (hbegun _) haccepted
  · obtain ⟨hwhole, rfl⟩ := Handshake.validate_eq_ok_iff.mp hverdict
    rw [← hall, List.take_length] at hwhole
    exact .validated (hbegun _) (haccepted.trans hwhole)
  · exact .rejected cause

/-- **Every call keeps the invariant.** -/
theorem Stands.serve (hstands : Stands ours calls n) (request : Request) :
    Stands ours (calls ++ [⟨request, (n.serve request).1⟩]) (n.serve request).2 := by
  cases hstands with
  | unestablished bytes =>
    cases request with
    | start =>
      refine .awaiting (List.mem_append_right _ (List.mem_singleton_self _)) ?_
      rw [accepted_concat, bytes]
      rfl
    | feed => exact (Stands.unestablished bytes).concat rfl
    | close => exact .rejected _
  | awaiting begun bytes =>
    cases request with
    | start => exact (Stands.awaiting begun bytes).concat rfl
    | feed => exact Stands.feed begun bytes rfl
    | close => exact .rejected _
  | validated begun bytes =>
    rw [serve_validated rfl]
    exact (Stands.validated begun bytes).concat
      (bytes_answer (.ok ours) (.outOfOrder · .validated) request)
  | rejected cause =>
    rw [serve_rejected rfl]
    exact (Stands.rejected cause).concat
      (bytes_answer (.error cause) (fun _ => .rejected) request)

/-- Every list of calls keeps it. -/
theorem Stands.run (hstands : Stands ours calls n) (requests : List Request) :
    Stands ours (calls ++ (n.run requests).1) (n.run requests).2 := by
  induction requests generalizing n calls with
  | nil =>
    rw [Negotiator.run, List.append_nil]
    exact hstands
  | cons request requests ih =>
    have hafter := ih (hstands.serve request)
    rw [List.append_assoc] at hafter
    exact hafter

/-! ## What follows -/

/-- Bytes are missing exactly as long as there is no decision. -/
theorem Stands.remaining (hstands : Stands ours calls n) :
    (n.state.stage = .unestablished ∨ n.state.stage = .awaitingPeer →
      n.remaining + (accepted calls).length = Handshake.size) ∧
    (n.state.stage = .awaitingPeer → n.remaining ≠ 0) ∧
    (n.state.stage = .validated ∨ n.state.stage = .rejected → n.remaining = 0) := by
  cases hstands with
  | unestablished bytes =>
    refine ⟨fun _ => ?_, nofun, nofun⟩
    rw [bytes]
    rfl
  | @awaiting received incomplete begun bytes =>
    have hmissing : Negotiator.remaining ⟨ours, .awaitingPeer received incomplete⟩ =
        Handshake.size - received.length := rfl
    rw [hmissing, bytes]
    exact ⟨fun _ => by omega, fun _ => by omega, nofun⟩
  | validated begun bytes => exact ⟨nofun, nofun, fun _ => rfl⟩
  | rejected cause => exact ⟨nofun, nofun, fun _ => rfl⟩

/-- The verdict on a handshake is never that it came at the wrong time. -/
theorem isMisuse_of_validate {received : Bytes}
    (hrefused : Handshake.validate received ours = .error cause) : cause.isMisuse = false := by
  unfold Handshake.validate at hrefused
  split at hrefused
  · cases hrefused
    rfl
  simp only at hrefused
  split at hrefused
  · cases hrefused
    rfl
  split at hrefused <;> cases hrefused
  rfl

/-- A call that comes at the wrong time changes nothing. -/
theorem serve_of_misuse (herror : (n.serve request).1.error? = some cause)
    (hmisuse : cause.isMisuse = true) : (n.serve request).2 = n := by
  obtain ⟨ours, state⟩ := n
  cases state with
  | unestablished =>
    cases request with
    | start => cases herror
    | feed => rfl
    | close =>
      cases herror
      cases hmisuse
  | awaitingPeer received incomplete =>
    cases request with
    | start => rfl
    | feed bytes =>
      rcases hfeed : feed ⟨ours, .awaitingPeer received incomplete⟩ bytes with ⟨result, fed⟩
      unfold serve at herror
      simp only [hfeed] at herror
      obtain ⟨taken, -, ⟨-, rfl, -⟩ | ⟨-, ⟨_, -, rfl, -⟩ | ⟨_, hverdict, rfl, -⟩⟩⟩ :=
        feed_front hfeed
      · cases herror
      · cases herror
      · cases herror
        exact absurd ((isMisuse_of_validate hverdict).symm.trans hmisuse) Bool.false_ne_true
    | close =>
      cases herror
      cases hmisuse
  | validated theirs => rw [serve_validated rfl]
  | rejected cause => rw [serve_rejected rfl]

/-- **A negotiator decides once.** Whatever calls are made on a new negotiator, in whatever order:

* it has accepted its peer only if it has begun the handshake and the bytes it took are exactly its
  own handshake, and then the hash is its own;
* once it has accepted or rejected its peer it stays as it is for ever: whoever closes it is told the
  decision, every other call is refused, and no more bytes are taken;
* until then the bytes that are missing and those that were taken are eight, and while it waits some
  are missing; afterwards none are;
* a call that is out of order, or comes after a rejection, changes nothing. -/
theorem run_decides_once (hrun : (new ours).run requests = (calls, n)) :
    (∀ theirs, n.state = .validated theirs →
      theirs = ours ∧ .beginning ours ∈ calls ∧ accepted calls = Handshake.encode ours) ∧
    ((∀ theirs, n.state = .validated theirs → n.Decided (.ok theirs) (.outOfOrder · .validated)) ∧
      ∀ cause, n.state = .rejected cause → n.Decided (.error cause) fun _ => .rejected) ∧
    ((n.state.stage = .unestablished ∨ n.state.stage = .awaitingPeer →
        n.remaining + (accepted calls).length = Handshake.size) ∧
      (n.state.stage = .awaitingPeer → n.remaining ≠ 0) ∧
      (n.state.stage = .validated ∨ n.state.stage = .rejected → n.remaining = 0)) ∧
    ∀ request cause, (n.serve request).1.error? = some cause → cause.isMisuse = true →
      (n.serve request).2 = n := by
  have hstands : Stands ours calls n := by
    have hnew : Stands ours [] (new ours) := .unestablished rfl
    have hlast := hnew.run requests
    rwa [hrun] at hlast
  refine ⟨fun theirs hstate => ?_, ⟨fun theirs hstate => ?_, fun cause hstate => ?_⟩, ?_,
    fun request cause => serve_of_misuse⟩
  · cases hstands with
    | validated begun bytes =>
      cases hstate
      exact ⟨rfl, begun, bytes⟩
    | unestablished | awaiting | rejected => cases hstate
  · exact decided_of_serve (serve_validated hstate)
  · exact decided_of_serve (serve_rejected hstate)
  · exact hstands.remaining

/-- Bytes before the start, a second start, the peer's handshake in two pieces with a byte behind it,
and more after the decision. -/
def stumbling : List Request :=
  [.feed [0x42], .start, .start, .feed [0x42, 0x43, 0x4E], .feed [0x50, 0x12, 0x34, 0x56, 0x78, 2],
    .feed [2, 4], .start, .close]

theorem run_decides_once_stumbling :
    ∃ calls n, (new ⟨0x12345678⟩).run stumbling = (calls, n) ∧
      n.state = .validated ⟨0x12345678⟩ ∧ .beginning ⟨0x12345678⟩ ∈ calls ∧
      accepted calls = Handshake.encode ⟨0x12345678⟩ ∧ n.remaining = 0 ∧
      n.Decided (.ok ⟨0x12345678⟩) (.outOfOrder · .validated) := by
  rcases hrun : (new ⟨0x12345678⟩).run stumbling with ⟨calls, n⟩
  have hstate : n.state = .validated ⟨0x12345678⟩ := by
    have hlast : ((new ⟨0x12345678⟩).run stumbling).2.state = .validated ⟨0x12345678⟩ := by
      decide +kernel
    rwa [hrun] at hlast
  obtain ⟨haccepts, ⟨hdecided, -⟩, ⟨-, -, hremaining⟩, -⟩ := run_decides_once hrun
  obtain ⟨-, hbegun, hbytes⟩ := haccepts _ hstate
  exact ⟨calls, n, rfl, hstate, hbegun, hbytes, hremaining (.inl (by rw [hstate]; rfl)),
    hdecided _ hstate⟩

end Negotiator

end CommandLink
