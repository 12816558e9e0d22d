import CommandLink.Proofs.Peer.Finality

/-!
# Fragments of a handshake

A negotiator that has begun is fed its peer's bytes in pieces, for as long as it waits
(`Negotiator.feedAll`). Where it stands then is said by the bytes alone (`Negotiator.given`).

* **One call** (`feed_given`): a piece moves it on from the bytes before to the bytes before and the
  piece, and all of the piece is taken that is missing.
* **All pieces** (`feedAll_given`, `takenBy_feedAll`, `feedAll_upTo`): where it stands, how many bytes
  were taken, and that what is behind the eighth byte makes no difference.
* `feedAll_fragments`: what follows for any two ways of cutting.
-/

namespace CommandLink

variable {ours theirs : SchemaHash} {cause : HandshakeError} {received : Bytes}

/-- The verdict goes by the first eight bytes. -/
theorem Handshake.validate_take (received : Bytes) (ours : SchemaHash) :
    validate (received.take size) ours = validate received ours := by
  by_cases hshort : received.length < size
  · rw [List.take_of_length_le (Nat.le_of_lt hshort)]
  obtain ⟨letters, hash, rest, hletters, hhash, rfl⟩ := exists_parts (Nat.not_lt.mp hshort)
  have hsize : (letters ++ hash).length = size := by rw [List.length_append, hletters, hhash, size]
  have halone := validate_parts hletters hhash [] ours
  rw [List.append_nil] at halone
  rw [List.take_left' hsize, halone, validate_parts hletters hhash]

namespace Negotiator

/-- A negotiator that has begun. -/
def started (ours : SchemaHash) : Negotiator := (new ours).start.2

/-- A negotiator that has begun and has been given these bytes. -/
def given (ours : SchemaHash) (bytes : Bytes) : Negotiator where
  ours := ours
  state :=
    if incomplete : bytes.length < Handshake.size then .awaitingPeer bytes incomplete
    else
      match Handshake.validate bytes ours with
      | .ok theirs => .validated theirs
      | .error cause => .rejected cause

/-- Feeds pieces for as long as the negotiator waits for its peer: the answers, and where it stands. -/
def feedAll (n : Negotiator) : List Bytes → List (Except HandshakeError Nat) × Negotiator
  | [] => ([], n)
  | piece :: pieces =>
    if n.state.stage = .awaitingPeer then
      ((n.feed piece).1 :: ((n.feed piece).2.feedAll pieces).1, ((n.feed piece).2.feedAll pieces).2)
    else ([], n)

/-- How many bytes were taken, as the answers say. -/
def takenBy : List (Except HandshakeError Nat) → Nat
  | [] => 0
  | .ok count :: answers => count + takenBy answers
  | .error _ :: answers => takenBy answers

/-- What a call answers that has taken so many bytes and has led here. -/
def answer (n : Negotiator) (count : Nat) : Except HandshakeError Nat :=
  match n.state with
  | .rejected cause => .error cause
  | _ => .ok count

/-- The pieces without what is behind their first `room` bytes. -/
def upTo : (room : Nat) → List Bytes → List Bytes
  | _, [] => []
  | room, piece :: pieces => piece.take room :: upTo (room - piece.length) pieces

/-! ## Given bytes -/

theorem given_of_short (hshort : received.length < Handshake.size) :
    given ours received = ⟨ours, .awaitingPeer received hshort⟩ := by
  unfold given
  rw [dif_pos hshort]

theorem given_of_ok (henough : Handshake.size ≤ received.length)
    (hverdict : Handshake.validate received ours = .ok theirs) :
    given ours received = ⟨ours, .validated theirs⟩ := by
  unfold given
  rw [dif_neg (Nat.not_lt.mpr henough), hverdict]

theorem given_of_error (henough : Handshake.size ≤ received.length)
    (hverdict : Handshake.validate received ours = .error cause) :
    given ours received = ⟨ours, .rejected cause⟩ := by
  unfold given
  rw [dif_neg (Nat.not_lt.mpr henough), hverdict]

/-- It waits exactly while it has been given fewer than eight bytes. -/
theorem stage_given : (given ours received).state.stage = .awaitingPeer ↔
    received.length < Handshake.size := by
  by_cases hshort : received.length < Handshake.size
  · simp [given_of_short hshort, NegotiatorState.stage, hshort]
  · cases hverdict : Handshake.validate received ours with
    | ok theirs =>
      simp [given_of_ok (Nat.not_lt.mp hshort) hverdict, NegotiatorState.stage, hshort]
    | error cause =>
      simp [given_of_error (Nat.not_lt.mp hshort) hverdict, NegotiatorState.stage, hshort]

/-- **The first eight bytes decide.** -/
theorem given_take (ours : SchemaHash) (bytes : Bytes) :
    given ours (bytes.take Handshake.size) = given ours bytes := by
  by_cases hshort : bytes.length < Handshake.size
  · rw [List.take_of_length_le (Nat.le_of_lt hshort)]
  have henough := Nat.not_lt.mp hshort
  have hfront : Handshake.size ≤ (bytes.take Handshake.size).length := by
    rw [List.length_take]
    exact Nat.le_min.mpr ⟨Nat.le_refl _, henough⟩
  have hsame := Handshake.validate_take bytes ours
  cases hverdict : Handshake.validate bytes ours with
  | ok theirs => rw [given_of_ok henough hverdict, given_of_ok hfront (hsame.trans hverdict)]
  | error cause =>
    rw [given_of_error henough hverdict, given_of_error hfront (hsame.trans hverdict)]

/-- Nothing comes of more bytes. -/
theorem given_append (henough : Handshake.size ≤ received.length) (more : Bytes) :
    given ours (received ++ more) = given ours received := by
  rw [← given_take ours (received ++ more), List.take_append_of_le_length henough, given_take]

theorem enough_of_rejected (hrejected : (given ours received).state = .rejected cause) :
    Handshake.size ≤ received.length := by
  refine Nat.not_lt.mp fun hshort => ?_
  rw [given_of_short hshort] at hrejected
  cases hrejected

theorem answer_of_not_rejected {n : Negotiator} (hgood : ∀ cause, n.state ≠ .rejected cause)
    (count : Nat) : n.answer count = .ok count := by
  unfold answer
  split
  · rename_i cause hstate
    exact absurd hstate (hgood cause)
  · rfl

/-! ## One call -/

/-- **A piece moves a negotiator on** from the bytes before to the bytes before and the piece. Of the
piece all is taken that is missing. -/
theorem feed_given (hshort : received.length < Handshake.size) (piece : Bytes) :
    (given ours received).feed piece =
      ((given ours (received ++ piece)).answer (min piece.length (Handshake.size - received.length)),
        given ours (received ++ piece)) := by
  have hmissing : (given ours received).remaining = Handshake.size - received.length := by
    rw [given_of_short hshort]
    rfl
  have hfits : (piece.take (Handshake.size - received.length)).length =
      min piece.length (Handshake.size - received.length) := by
    rw [List.length_take, Nat.min_comm]
  have hfront : (received ++ piece).take Handshake.size =
      received ++ piece.take (Handshake.size - received.length) := by
    rw [List.take_append, List.take_of_length_le (Nat.le_of_lt hshort)]
  rw [← feed_take_remaining, hmissing, ← given_take ours (received ++ piece), hfront, ← hfits,
    given_of_short hshort]
  rcases hfeed : feed ⟨ours, .awaitingPeer received hshort⟩
    (piece.take (Handshake.size - received.length)) with ⟨result, fed⟩
  rcases feed_awaiting (hfits ▸ Nat.min_le_right ..) hfeed with
    ⟨hless, rfl, rfl⟩ | ⟨hall, ⟨theirs, hverdict, rfl, rfl⟩ | ⟨cause, hverdict, rfl, rfl⟩⟩
  · rw [given_of_short hless]
    rfl
  · rw [given_of_ok (Nat.le_of_eq hall.symm) hverdict]
    rfl
  · rw [given_of_error (Nat.le_of_eq hall.symm) hverdict]
    rfl

/-! ## All pieces -/

theorem feedAll_cons (hshort : received.length < Handshake.size) (piece : Bytes)
    (pieces : List Bytes) : (given ours received).feedAll (piece :: pieces) =
      ((given ours (received ++ piece)).answer (min piece.length (Handshake.size - received.length))
        :: ((given ours (received ++ piece)).feedAll pieces).1,
        ((given ours (received ++ piece)).feedAll pieces).2) := by
  rw [feedAll, if_pos (stage_given.mpr hshort), feed_given hshort]

theorem feedAll_of_enough (henough : Handshake.size ≤ received.length) (pieces : List Bytes) :
    (given ours received).feedAll pieces = ([], given ours received) := by
  cases pieces with
  | nil => rfl
  | cons piece pieces =>
    rw [feedAll, if_neg (mt stage_given.mp (Nat.not_lt.mpr henough))]

/-- **Where a negotiator stands** is said by the bytes that the pieces make up. -/
theorem feedAll_given (ours : SchemaHash) (received : Bytes) (pieces : List Bytes) :
    ((given ours received).feedAll pieces).2 = given ours (received ++ pieces.flatten) := by
  induction pieces generalizing received with
  | nil => rw [List.flatten_nil, List.append_nil, feedAll]
  | cons piece pieces ih =>
    by_cases hshort : received.length < Handshake.size
    · rw [feedAll_cons hshort, ih, List.flatten_cons, List.append_assoc]
    · rw [feedAll_of_enough (Nat.not_lt.mp hshort), given_append (Nat.not_lt.mp hshort)]

theorem takenBy_answer_le (n : Negotiator) (count : Nat)
    (answers : List (Except HandshakeError Nat)) :
    takenBy (n.answer count :: answers) ≤ count + takenBy answers := by
  unfold answer
  split
  · exact Nat.le_add_left ..
  · exact Nat.le_refl _

/-- A piece, or as much of it as is missing, makes up the difference. -/
theorem min_missing (received piece : Bytes) :
    min piece.length (Handshake.size - received.length) + min Handshake.size received.length =
      min Handshake.size (received ++ piece).length := by
  rw [List.length_append]
  omega

/-- **No more is taken** than is missing of the first eight bytes. -/
theorem takenBy_feedAll_le (ours : SchemaHash) (received : Bytes) (pieces : List Bytes) :
    takenBy ((given ours received).feedAll pieces).1 + min Handshake.size received.length ≤
      min Handshake.size (received ++ pieces.flatten).length := by
  induction pieces generalizing received with
  | nil =>
    refine Nat.le_of_eq ?_
    rw [List.flatten_nil, List.append_nil, feedAll, takenBy, Nat.zero_add]
  | cons piece pieces ih =>
    by_cases hshort : received.length < Handshake.size
    · have hrest := ih (received ++ piece)
      have hfirst := takenBy_answer_le (given ours (received ++ piece))
        (min piece.length (Handshake.size - received.length))
        ((given ours (received ++ piece)).feedAll pieces).1
      have hmissing := min_missing received piece
      rw [feedAll_cons hshort, List.flatten_cons, ← List.append_assoc]
      dsimp only
      omega
    · rw [feedAll_of_enough (Nat.not_lt.mp hshort), takenBy, Nat.zero_add, List.length_append]
      omega

/-- **All is taken** that is missing of the first eight bytes, if the peer is not rejected. -/
theorem takenBy_feedAll (received : Bytes) (pieces : List Bytes)
    (hgood : ∀ cause, (given ours (received ++ pieces.flatten)).state ≠ .rejected cause) :
    takenBy ((given ours received).feedAll pieces).1 + min Handshake.size received.length =
      min Handshake.size (received ++ pieces.flatten).length := by
  induction pieces generalizing received with
  | nil => rw [List.flatten_nil, List.append_nil, feedAll, takenBy, Nat.zero_add]
  | cons piece pieces ih =>
    rw [List.flatten_cons, ← List.append_assoc] at hgood ⊢
    by_cases hshort : received.length < Handshake.size
    · -- A rejection would stay: what decides has been given in full by then.
      have hnow : ∀ cause, (given ours (received ++ piece)).state ≠ .rejected cause :=
        fun cause hrejected => hgood cause <| by
          rw [given_append (enough_of_rejected hrejected), hrejected]
      have hrest := ih (received ++ piece) hgood
      have hmissing := min_missing received piece
      rw [feedAll_cons hshort, answer_of_not_rejected hnow, takenBy]
      omega
    · rw [feedAll_of_enough (Nat.not_lt.mp hshort), takenBy, List.length_append, List.length_append]
      omega

/-- **What is behind the eighth byte** makes no difference to any answer. -/
theorem feedAll_upTo (ours : SchemaHash) (received : Bytes) (pieces : List Bytes) :
    (given ours received).feedAll (upTo (Handshake.size - received.length) pieces) =
      (given ours received).feedAll pieces := by
  induction pieces generalizing received with
  | nil => rw [upTo]
  | cons piece pieces ih =>
    by_cases hshort : received.length < Handshake.size
    · have hfront : given ours (received ++ piece.take (Handshake.size - received.length)) =
          given ours (received ++ piece) := by
        rw [← given_take ours (received ++ piece), List.take_append,
          List.take_of_length_le (Nat.le_of_lt hshort)]
      have hcount : min (piece.take (Handshake.size - received.length)).length
          (Handshake.size - received.length) =
            min piece.length (Handshake.size - received.length) := by
        rw [List.length_take, Nat.min_comm, ← Nat.min_assoc, Nat.min_self, Nat.min_comm]
      have hroom : Handshake.size - received.length - piece.length =
          Handshake.size - (received ++ piece).length := by
        rw [List.length_append, Nat.sub_sub]
      rw [upTo, feedAll_cons hshort, feedAll_cons hshort, hfront, hcount, hroom, ih]
    · rw [feedAll_of_enough (Nat.not_lt.mp hshort), feedAll_of_enough (Nat.not_lt.mp hshort)]

/-! ## Any way of cutting -/

/-- A negotiator that has begun has been given nothing. -/
theorem started_eq (ours : SchemaHash) : started ours = given ours [] := by
  rw [given_of_short (by decide)]
  rfl

/-- **Fragments make no difference.** However the bytes of a peer are cut into pieces, a negotiator
that has begun and is fed them for as long as it waits ends up where one call with all of them leads.
It waits if they are fewer than eight, and then for the missing ones; otherwise it has accepted or
rejected its peer as the verdict on the bytes says, and the first eight of them alone decide. As many
bytes as there are, up to eight, are taken if the peer is not rejected. No byte behind the eighth is
ever taken, nor does it make a difference to an answer. -/
theorem feedAll_fragments (ours : SchemaHash) (pieces : List Bytes) :
    ((started ours).feedAll pieces).2 = ((started ours).feed pieces.flatten).2 ∧
    (pieces.flatten.length < Handshake.size →
      (∃ waiting, ((started ours).feedAll pieces).2.state = .awaitingPeer pieces.flatten waiting) ∧
      ((started ours).feedAll pieces).2.remaining = Handshake.size - pieces.flatten.length) ∧
    (Handshake.size ≤ pieces.flatten.length →
      (∀ theirs, ((started ours).feedAll pieces).2.state = .validated theirs ↔
        Handshake.validate pieces.flatten ours = .ok theirs) ∧
      (∀ cause, ((started ours).feedAll pieces).2.state = .rejected cause ↔
        Handshake.validate pieces.flatten ours = .error cause)) ∧
    (∀ others : List Bytes, others.flatten.take Handshake.size = pieces.flatten.take Handshake.size →
      ((started ours).feedAll others).2 = ((started ours).feedAll pieces).2) ∧
    ((∀ cause, ((started ours).feedAll pieces).2.state ≠ .rejected cause) →
      takenBy ((started ours).feedAll pieces).1 = min Handshake.size pieces.flatten.length) ∧
    takenBy ((started ours).feedAll pieces).1 ≤ Handshake.size ∧
    (started ours).feedAll (upTo Handshake.size pieces) = (started ours).feedAll pieces := by
  have hends : ∀ pieces : List Bytes,
      ((given ours []).feedAll pieces).2 = given ours pieces.flatten :=
    feedAll_given ours []
  have honce : (given ours []).feed pieces.flatten = _ := feed_given (by decide) _
  rw [started_eq]
  refine ⟨?once, ?few, ?enough, ?others, ?all, ?most, ?behind⟩
  case once => rw [hends, honce, List.nil_append]
  case few =>
    intro hfew
    rw [hends, given_of_short hfew]
    exact ⟨⟨hfew, rfl⟩, rfl⟩
  case enough =>
    intro henough
    rw [hends]
    cases hverdict : Handshake.validate pieces.flatten ours with
    | ok theirs => simp [given_of_ok henough hverdict]
    | error cause => simp [given_of_error henough hverdict]
  case others =>
    intro others hsame
    rw [hends, hends, ← given_take ours others.flatten, hsame, given_take]
  case all =>
    intro hgood
    rw [hends] at hgood
    exact takenBy_feedAll [] pieces hgood
  case most =>
    exact Nat.le_trans (takenBy_feedAll_le ours [] pieces) (Nat.min_le_left ..)
  case behind => exact feedAll_upTo ours [] pieces

/-- The handshake of a peer that agrees, in pieces, one of them empty, with two bytes of a packet
behind it; and what has come of it after two pieces. -/
theorem feedAll_fragments_agreeing :
    (((started ⟨7⟩).feedAll [[0x42], [], [0x43, 0x4E, 0x50, 0, 0, 0], [7, 1, 0]]).2.state =
        .validated ⟨7⟩ ∧
      takenBy ((started ⟨7⟩).feedAll [[0x42], [], [0x43, 0x4E, 0x50, 0, 0, 0], [7, 1, 0]]).1 = 8) ∧
    ((started ⟨7⟩).feedAll [[0x42], []]).2.remaining = 7 := by
  obtain ⟨-, -, henough, -, hall, -, -⟩ :=
    feedAll_fragments ⟨7⟩ [[0x42], [], [0x43, 0x4E, 0x50, 0, 0, 0], [7, 1, 0]]
  obtain ⟨-, hfew, -⟩ := feedAll_fragments ⟨7⟩ [[0x42], []]
  have haccepted := ((henough (by decide)).1 ⟨7⟩).mpr (by rfl)
  refine ⟨⟨haccepted, hall fun cause hrejected => ?_⟩, (hfew (by decide)).2⟩
  cases haccepted.symm.trans hrejected

end Negotiator

end CommandLink
