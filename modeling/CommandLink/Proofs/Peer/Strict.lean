import CommandLink.Proofs.Packet.Strict
import CommandLink.Proofs.Peer.Finality

/-!
# Negotiators, with every access checked

A negotiator in eight bytes of storage: what the peer has sent fills them from the front, up to a mark
(`Buffered`), and each copy into the storage is a checked one. The storage `Holds` what a `Negotiator`
that waits has received.

* `Holds.serve`, `Holds.run`: one request, and every list of requests, is answered as by the
  `Negotiator`, inside the storage.
* `never_outside`: no input makes a decoder or a negotiator reach outside of its bytes.
-/

namespace CommandLink

namespace Strict

open Negotiator (Request Reply Call)

/-! ## Handshakes -/

/-- Bytes of a given number, all zero. -/
def zeros (count : Nat) : Bytes := List.replicate count 0

/-- The handshake of a peer with the given schema hash. -/
def hello (hash : SchemaHash) : Option Bytes := do
  let out ← overwrite (zeros Handshake.size) 0 4 Handshake.magic
  overwrite out 4 Handshake.size hash.toBytes

/-- Checks a handshake against the receiver's own hash: the peer's hash. -/
def validate (received : Bytes) (ours : SchemaHash) : Strict HandshakeError SchemaHash :=
  if received.length < Handshake.size then throw (.incomplete received.length)
  else do
    let front ← slice received 0 Handshake.size
    let (magic, hash) ← split front 4
    if magic ≠ Handshake.magic then
      let found ← overwrite (zeros 4) 0 4 magic
      throw (.badMagic found)
    else
      let raw ← overwrite (zeros 4) 0 4 hash
      let theirs := SchemaHash.ofBytes raw
      if theirs ≠ ours then throw (.schemaMismatch ours theirs) else return theirs

theorem hello_eq (hash : SchemaHash) : hello hash = some (Handshake.encode hash) := rfl

/-- Storage that is written over as a whole. -/
theorem overwrite_all {source : Bytes} {count : Nat} (hsource : source.length = count) :
    overwrite (zeros count) 0 count source = some source := by
  have hzeros : (zeros count).length = count := List.length_replicate
  rw [overwrite_eq (Nat.zero_le _) (Nat.le_of_eq hzeros.symm) hsource,
    List.drop_of_length_le (Nat.le_of_eq hzeros), List.append_nil]
  rfl

theorem validate_eq (received : Bytes) (ours : SchemaHash) :
    validate received ours = verdict (Handshake.validate received ours) := by
  unfold validate Handshake.validate
  split
  · rfl
  rename_i henough
  have hsize : Handshake.size ≤ received.length := Nat.not_lt.mp henough
  have hfront : (received.take Handshake.size).length = Handshake.size := List.length_take_of_le hsize
  have hmagic : (received.take Handshake.size).take 4 = received.take Handshake.magic.length := by
    rw [List.take_take]
    rfl
  have hhash : (received.take Handshake.size).drop 4 = (received.drop Handshake.magic.length).take 4 :=
    List.drop_take
  have hmagicLength : (received.take Handshake.magic.length).length = 4 :=
    List.length_take_of_le (Nat.le_trans (by decide) hsize)
  have hhashLength : ((received.drop Handshake.magic.length).take 4).length = 4 := by
    rw [← hhash, List.length_drop, hfront]
    rfl
  simp only [slice_eq (Nat.zero_le _) hsize, access_bind, List.drop_zero,
    split_eq (Nat.le_trans (by decide : 4 ≤ Handshake.size) hfront.ge), hmagic, hhash,
    overwrite_all hmagicLength, overwrite_all hhashLength]
  split
  · rfl
  · split <;> rfl

/-! ## Negotiators in storage -/

/-- Where a negotiator in storage stands. -/
inductive Stage where
  | unestablished
  | awaitingPeer
  | validated (theirs : SchemaHash)
  | rejected (cause : HandshakeError)

/-- The name of a stage. -/
def Stage.name : Stage → HandshakeStage
  | unestablished => .unestablished
  | awaitingPeer => .awaitingPeer
  | validated _ => .validated
  | rejected _ => .rejected

/-- A negotiator with its storage, of which the bytes before the mark have come in. -/
structure Buffered where
  ours : SchemaHash
  stage : Stage
  storage : Bytes
  mark : Nat

namespace Buffered

/-- A negotiator that has sent nothing. -/
def new (ours : SchemaHash) : Buffered := ⟨ours, .unestablished, zeros Handshake.size, 0⟩

/-- Begins the handshake: the bytes to send. -/
def start (b : Buffered) : Option (Except HandshakeError Bytes × Buffered) :=
  match b.stage with
  | .unestablished => do
    let out ← hello b.ours
    return (.ok out, { b with stage := .awaitingPeer })
  | .rejected _ => return (.error .rejected, b)
  | stage => return (.error (.outOfOrder .start stage.name), b)

/-- The bytes that are still needed from the peer. -/
def remaining (b : Buffered) : Option Nat :=
  match b.stage with
  | .unestablished => difference Handshake.size b.mark
  | .awaitingPeer => difference Handshake.size b.mark
  | _ => return 0

/-- Takes bytes from the peer into the storage: how many were taken. The eighth decides. -/
def feed (b : Buffered) (bytes : Bytes) : Option (Except HandshakeError Nat × Buffered) :=
  match b.stage with
  | .awaitingPeer => do
    let missing ← difference Handshake.size b.mark
    let count := min bytes.length missing
    let piece ← slice bytes 0 count
    let storage ← overwrite b.storage b.mark (b.mark + count) piece
    let filled : Buffered := { b with storage, mark := b.mark + count }
    if filled.mark = Handshake.size then
      match ← (validate storage b.ours).run with
      | .ok theirs => return (.ok count, { filled with stage := .validated theirs })
      | .error cause => return (.error cause, { filled with stage := .rejected cause })
    else return (.ok count, filled)
  | .rejected _ => return (.error .rejected, b)
  | stage => return (.error (.outOfOrder .feed stage.name), b)

/-- The peer's stream has ended: the peer's hash, if its handshake had matched. -/
def close (b : Buffered) : Except HandshakeError SchemaHash × Buffered :=
  match b.stage with
  | .validated theirs => (.ok theirs, b)
  | .rejected cause => (.error cause, b)
  | _ => (.error (.incomplete b.mark), { b with stage := .rejected (.incomplete b.mark) })

/-- The answer to a request. -/
def serve (b : Buffered) : Request → Option (Reply × Buffered)
  | .start => b.start.map fun answer => (.hello answer.1, answer.2)
  | .feed bytes => (b.feed bytes).map fun answer => (.taken answer.1, answer.2)
  | .close => some (.verdict b.close.1, b.close.2)

/-- Answers requests one after the other. -/
def run (b : Buffered) : List Request → Option (List Call × Buffered)
  | [] => some ([], b)
  | request :: requests => do
    let (reply, next) ← b.serve request
    let (calls, last) ← next.run requests
    return (⟨request, reply⟩ :: calls, last)

end Buffered

/-! ## What the storage holds -/

/-- The storage of a negotiator that waits holds what has been received, and is not full. -/
inductive Holds : Buffered → Negotiator → Prop where
  | unestablished {ours : SchemaHash} {storage : Bytes} (whole : storage.length = Handshake.size) :
      Holds ⟨ours, .unestablished, storage, 0⟩ ⟨ours, .unestablished⟩
  | awaiting {ours : SchemaHash} {storage received : Bytes}
      {incomplete : received.length < Handshake.size} (whole : storage.length = Handshake.size)
      (front : storage.take received.length = received) :
      Holds ⟨ours, .awaitingPeer, storage, received.length⟩ ⟨ours, .awaitingPeer received incomplete⟩
  | validated {ours theirs : SchemaHash} {storage : Bytes} {mark : Nat} :
      Holds ⟨ours, .validated theirs, storage, mark⟩ ⟨ours, .validated theirs⟩
  | rejected {ours : SchemaHash} {cause : HandshakeError} {storage : Bytes} {mark : Nat} :
      Holds ⟨ours, .rejected cause, storage, mark⟩ ⟨ours, .rejected cause⟩

variable {b : Buffered} {n : Negotiator}

theorem holds_new (ours : SchemaHash) : Holds (.new ours) (.new ours) :=
  .unestablished List.length_replicate

/-- As many bytes are missing as the storage has room for. -/
theorem Holds.remaining (hholds : Holds b n) : b.remaining = some n.remaining := by
  cases hholds with
  | unestablished => rfl
  | @awaiting ours storage received incomplete => exact difference_eq (Nat.le_of_lt incomplete)
  | validated | rejected => rfl

/-- **Bytes are taken inside the storage** of a negotiator that waits. -/
theorem Holds.feed (hholds : Holds b n) (bytes : Bytes) :
    ∃ fed, b.feed bytes = some ((n.feed bytes).1, fed) ∧ Holds fed (n.feed bytes).2 := by
  cases hholds with
  | unestablished whole => exact ⟨_, rfl, .unestablished whole⟩
  | validated => exact ⟨_, rfl, .validated⟩
  | rejected => exact ⟨_, rfl, .rejected⟩
  | @awaiting ours storage received incomplete whole front =>
    unfold Buffered.feed Negotiator.feed
    dsimp only
    generalize htaken : bytes.take (Handshake.size - received.length) = taken
    have hcount : min bytes.length (Handshake.size - received.length) = taken.length := by
      rw [← htaken, List.length_take, Nat.min_comm]
    have hfront : bytes.take taken.length = taken := by
      rw [← htaken, List.length_take, ← List.take_eq_take_min]
    have hroom : received.length + taken.length ≤ storage.length := by omega
    have hwrite : overwrite storage received.length (received ++ taken).length taken =
        some (received ++ taken ++ storage.drop (received ++ taken).length) := by
      rw [List.length_append, overwrite_eq (Nat.le_add_right ..) hroom
        (Nat.add_sub_cancel_left ..).symm, front]
    simp only [difference_eq (Nat.le_of_lt incomplete), Option.bind_eq_bind, Option.bind_some, hcount,
      slice_eq (Nat.zero_le _) (hcount ▸ Nat.min_le_left ..), List.drop_zero, hfront,
      ← List.length_append, hwrite, validate_eq]
    by_cases hless : (received ++ taken).length < Handshake.size
    · rw [if_neg (Nat.ne_of_lt hless), dif_pos hless]
      refine ⟨_, rfl, .awaiting ?_ List.take_left⟩
      rw [List.length_append, List.length_drop]
      omega
    · -- The storage is full: nothing of what was there before is left behind the mark.
      have hall : (received ++ taken).length = Handshake.size := by
        rw [List.length_append] at *
        omega
      have hback : storage.drop (received ++ taken).length = [] :=
        List.drop_of_length_le (Nat.le_of_eq (whole.trans hall.symm))
      rw [if_pos hall, dif_neg hless, hback, List.append_nil]
      cases Handshake.validate (received ++ taken) ours with
      | ok theirs => exact ⟨_, rfl, .validated⟩
      | error cause => exact ⟨_, rfl, .rejected⟩

/-- **Every request is answered inside the storage.** -/
theorem Holds.serve (hholds : Holds b n) (request : Request) :
    ∃ next, b.serve request = some ((n.serve request).1, next) ∧ Holds next (n.serve request).2 := by
  cases request with
  | start =>
    cases hholds with
    | @unestablished ours storage whole =>
      refine ⟨⟨ours, .awaitingPeer, storage, 0⟩, ?_,
        @Holds.awaiting ours storage [] (by decide) whole rfl⟩
      simp only [Buffered.serve, Buffered.start, hello_eq]
      rfl
    | awaiting whole front => exact ⟨_, rfl, .awaiting whole front⟩
    | validated => exact ⟨_, rfl, .validated⟩
    | rejected => exact ⟨_, rfl, .rejected⟩
  | feed bytes =>
    obtain ⟨fed, hfed, hnext⟩ := hholds.feed bytes
    refine ⟨fed, ?_, hnext⟩
    rw [Buffered.serve, hfed]
    rfl
  | close =>
    cases hholds with
    | unestablished | awaiting => exact ⟨_, rfl, .rejected⟩
    | validated => exact ⟨_, rfl, .validated⟩
    | rejected => exact ⟨_, rfl, .rejected⟩

/-- Every list of requests is. -/
theorem Holds.run (hholds : Holds b n) (requests : List Request) :
    ∃ last, b.run requests = some ((n.run requests).1, last) ∧ Holds last (n.run requests).2 := by
  induction requests generalizing b n with
  | nil => exact ⟨b, rfl, hholds⟩
  | cons request requests ih =>
    obtain ⟨next, hserve, hnext⟩ := hholds.serve request
    obtain ⟨last, hrun, hlast⟩ := ih hnext
    refine ⟨last, ?_, hlast⟩
    unfold Buffered.run
    simp only [hserve, Option.bind_eq_bind, Option.bind_some, hrun]
    rfl

/-! ## What follows -/

/-- **No input reaches outside of its bytes.**

* For every schema, message type and byte string, the decoder of one packet and that of a buffer's
  front have an outcome with every access checked; it is that of `Packet.decode` and
  `Packet.decodeFront` if the lengths of the packets of this type are 64-bit sizes.
* A record is read as by `Message.decode` from any bytes, and when it is read nothing is left of the
  bytes that a record has.
* Whatever calls are made on a new negotiator, they are answered as by a `Negotiator` inside eight bytes
  of storage, and the number of bytes that are missing afterwards is not below zero. -/
theorem never_outside :
    (∀ s typeId bytes,
      (∃ outcome, decode s typeId bytes = verdict outcome ∧
        (Fits s typeId → outcome = Packet.decode s typeId bytes)) ∧
      ∃ outcome, decodeFront s typeId bytes = some outcome ∧
        (Fits s typeId → outcome = Packet.decodeFront s typeId bytes)) ∧
    (∀ m bytes, decodeRecord m bytes = verdict ((m.decode bytes).map fun record => (record, []))) ∧
    ∀ ours requests, ∃ last,
      (Buffered.new ours).run requests = some (((Negotiator.new ours).run requests).1, last) ∧
      last.remaining = some ((Negotiator.new ours).run requests).2.remaining := by
  refine ⟨fun s typeId bytes => ⟨exists_decode s typeId bytes, exists_decodeFront s typeId bytes⟩,
    decodeRecord_eq, fun ours requests => ?_⟩
  obtain ⟨last, hrun, hholds⟩ := (holds_new ours).run requests
  exact ⟨last, hrun, hholds.remaining⟩

theorem never_outside_drive : Fits .builtin DriveCommand.typeId ∧
    ∀ bytes, decode .builtin DriveCommand.typeId bytes =
      verdict (Packet.decode .builtin DriveCommand.typeId bytes) := by
  have hsize : (Schema.builtin.message? DriveCommand.typeId).all fun m =>
      packetLength Header.maxCount m.wireSize < 2 ^ 64 := by decide
  have hfits : Fits .builtin DriveCommand.typeId := fun m hm => by
    rw [hm] at hsize
    exact of_decide_eq_true hsize
  refine ⟨hfits, fun bytes => ?_⟩
  obtain ⟨outcome, hdecode, hsame⟩ := (never_outside.1 .builtin DriveCommand.typeId bytes).1
  rw [hdecode, hsame hfits]

end Strict

end CommandLink
