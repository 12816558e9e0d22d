import CommandLink.Proofs.Packet.Acceptance
import CommandLink.Proofs.Packet.Front

/-!
# Packets out of a buffer that is filled piece by piece

The bytes of a stream arrive in pieces, and in between a receiver looks for a packet at the front of
what has arrived (`receive`). Both happen in any order. As long as the arriving bytes are whole
packets one behind the other, what is in the buffer and what is still to come are always the packets
without a verdict (`receive_whole`).

* `receive_damaged`: packets that were damaged anywhere but in their counts get their own verdicts in
  order, one each, whatever happened to the others and however the bytes arrived. An undamaged one is
  handed out if none of its values is lost.
* `not_forall_delivered`: an undamaged packet that is not handed out.
-/

namespace CommandLink

/-- What happens to the buffer of a stream. -/
inductive BufferStep where
  | arrive (piece : Bytes)
  /-- The receiver looks for a packet at the front. -/
  | decode
deriving DecidableEq, Repr

/-- The bytes that a step brings. -/
def BufferStep.bytes : BufferStep → Bytes
  | arrive piece => piece
  | decode => []

namespace Packet

/-- What a receiver finds in a buffer in the course of a schedule, apart from incomplete packets,
and what is in the buffer afterwards. -/
def receive (s : Schema) (typeId : UInt16) :
    List BufferStep → (buffer : Bytes) → List (Except DecodeError Packet) × Bytes
  | [], buffer => ([], buffer)
  | .arrive piece :: schedule, buffer => receive s typeId schedule (buffer ++ piece)
  | .decode :: schedule, buffer =>
    match decodeFront s typeId buffer with
    | (.ok none, left) => receive s typeId schedule left
    | (.ok (some packet), left) =>
      (.ok packet :: (receive s typeId schedule left).1, (receive s typeId schedule left).2)
    | (.error cause, left) =>
      (.error cause :: (receive s typeId schedule left).1, (receive s typeId schedule left).2)

variable {s : Schema} {typeId : UInt16} {m : Message} {schedule : List BufferStep}
  {buffer p : Bytes}

theorem receive_append (first second : List BufferStep) (buffer : Bytes) :
    receive s typeId (first ++ second) buffer =
      ((receive s typeId first buffer).1 ++
          (receive s typeId second (receive s typeId first buffer).2).1,
        (receive s typeId second (receive s typeId first buffer).2).2) := by
  induction first generalizing buffer with
  | nil => rfl
  | cons step first ih =>
    cases step with
    | arrive piece => exact ih (buffer ++ piece)
    | decode =>
      simp only [List.cons_append, receive]
      rcases decodeFront s typeId buffer with ⟨_ | _ | packet, left⟩ <;> simp [ih]

/-- A receiver that looks at an incomplete packet leaves it where it is. -/
theorem receive_incomplete (hm : s.message? typeId = some m)
    (hincomplete : Incomplete m.wireSize buffer) :
    receive s typeId (.decode :: schedule) buffer = receive s typeId schedule buffer := by
  rw [receive, decodeFront_incomplete hm hincomplete]

/-- A receiver that looks at a whole packet gets its verdict. -/
theorem receive_whole_cons (hm : s.message? typeId = some m) (hp : Whole m.wireSize p)
    (left : Bytes) : receive s typeId (.decode :: schedule) (p ++ left) =
      (decode s typeId p :: (receive s typeId schedule left).1,
        (receive s typeId schedule left).2) := by
  rw [receive, decodeFront_whole hm hp]
  cases decode s typeId p <;> rfl

/-- **Packets get their verdicts in order, and the others are in the buffer or still to come.** -/
theorem receive_whole (hm : s.message? typeId = some m) {parts : List Bytes}
    (hparts : ∀ p ∈ parts, Whole m.wireSize p) {rest : Bytes}
    (harrived : buffer ++ schedule.flatMap BufferStep.bytes ++ rest = parts.flatten) :
    ∃ done todo, parts = done ++ todo ∧
      (receive s typeId schedule buffer).1 = done.map (decode s typeId) ∧
      (receive s typeId schedule buffer).2 ++ rest = todo.flatten := by
  induction schedule generalizing buffer parts with
  | nil =>
    rw [List.flatMap_nil, List.append_nil] at harrived
    exact ⟨[], parts, rfl, rfl, harrived⟩
  | cons step schedule ih =>
    cases step with
    | arrive piece =>
      refine ih hparts ?_
      rw [← harrived, List.flatMap_cons, BufferStep.bytes, ← List.append_assoc]
    | decode =>
      rw [List.flatMap_cons, BufferStep.bytes, List.nil_append] at harrived
      rcases incomplete_or_whole m.wireSize buffer with hincomplete | ⟨p, left, hp, rfl⟩
      · rw [receive_incomplete hm hincomplete]
        exact ih hparts harrived
      cases parts with
      | nil =>
        -- a whole packet is not empty, so there is one to come
        simp only [List.flatten_nil, List.append_eq_nil_iff] at harrived
        obtain rfl := harrived.1.1.1
        exact absurd incomplete_nil (hp.not_incomplete [])
      | cons q parts =>
        obtain ⟨hq, hothers⟩ := List.forall_mem_cons.mp hparts
        rw [List.flatten_cons, List.append_assoc, List.append_assoc] at harrived
        obtain ⟨rfl, hleft⟩ := hp.append_inj hq harrived
        rw [← List.append_assoc] at hleft
        obtain ⟨done, todo, hsplit, hresults, htodo⟩ := ih hothers hleft
        rw [receive_whole_cons hm hp]
        exact ⟨p :: done, todo, congrArg (p :: ·) hsplit, congrArg (_ :: ·) hresults, htodo⟩

/-- Looking often enough at a buffer of whole packets empties it. -/
theorem receive_replicate (hm : s.message? typeId = some m) {parts : List Bytes}
    (hparts : ∀ p ∈ parts, Whole m.wireSize p) {k : Nat} (hk : parts.length ≤ k) :
    receive s typeId (List.replicate k .decode) parts.flatten =
      (parts.map (decode s typeId), []) := by
  induction k generalizing parts with
  | zero =>
    obtain rfl := List.eq_nil_of_length_eq_zero (Nat.le_zero.mp hk)
    rfl
  | succ k ih =>
    rw [List.replicate_succ]
    cases parts with
    | nil =>
      rw [List.flatten_nil, receive_incomplete hm incomplete_nil]
      exact ih hparts (Nat.zero_le k)
    | cons p parts =>
      obtain ⟨hp, hparts⟩ := List.forall_mem_cons.mp hparts
      rw [List.flatten_cons, receive_whole_cons hm hp, ih hparts (Nat.le_of_succ_le_succ hk)]
      rfl

/-- **Once all packets have arrived, looking often enough gives all their verdicts.** -/
theorem receive_all (hm : s.message? typeId = some m) {parts : List Bytes}
    (hparts : ∀ p ∈ parts, Whole m.wireSize p)
    (harrived : schedule.flatMap BufferStep.bytes = parts.flatten) {k : Nat} (hk : parts.length ≤ k) :
    receive s typeId (schedule ++ List.replicate k .decode) [] =
      (parts.map (decode s typeId), []) := by
  have harrived' : [] ++ schedule.flatMap BufferStep.bytes ++ [] = parts.flatten := by
    rw [List.append_nil, List.nil_append, harrived]
  obtain ⟨done, todo, rfl, hresults, htodo⟩ := receive_whole hm hparts harrived'
  have htodo_whole : ∀ p ∈ todo, Whole m.wireSize p :=
    fun p hp => hparts p (List.mem_append_right done hp)
  rw [List.append_nil] at htodo
  rw [List.length_append] at hk
  rw [receive_append, htodo, receive_replicate hm htodo_whole (by omega), hresults, List.map_append]

/-! ## Damaged packets -/

/-- As many bytes with the same count; all others may differ. -/
structure SparesCount (original altered : Bytes) : Prop where
  length : altered.length = original.length
  high : altered[3]? = original[3]?
  low : altered[4]? = original[4]?

/-- Damage that spares the count leaves a packet whole. -/
theorem Whole.of_sparesCount {size : Nat} {original altered : Bytes} (hwhole : Whole size original)
    (hspares : SparesCount original altered) : Whole size altered := by
  obtain ⟨h, hparse, hlen⟩ := hwhole
  cases hparse' : Header.parse? altered with
  | none =>
    have hshort := Header.parse?_eq_none.mp hparse'
    rw [hspares.length, hlen] at hshort
    unfold packetLength at hshort
    omega
  | some h' =>
    refine ⟨h', hparse', ?_⟩
    rw [hspares.length, hlen, Header.count_eq hparse hparse' hspares.high.symm hspares.low.symm]

/-- Packets that were damaged anywhere but in their counts are whole. -/
theorem whole_of_damaged (hm : s.message? typeId = some m) {packets altered : List Bytes}
    (hpackets : ∀ p ∈ packets, ∃ records flags, append s typeId records flags [] = (.ok (), p))
    (hspares : List.Forall₂ SparesCount packets altered) : ∀ p ∈ altered, Whole m.wireSize p := by
  induction hspares with
  | nil => exact List.forall_mem_nil _
  | cons hspare _ ih =>
    obtain ⟨⟨records, flags, happend⟩, hpackets⟩ := List.forall_mem_cons.mp hpackets
    obtain ⟨_, hencode, rfl⟩ := append_eq_ok.mp happend
    exact List.forall_mem_cons.mpr ⟨(whole_of_encode hm hencode).of_sparesCount hspare, ih hpackets⟩

/-- **Damaged packets are skipped without losing their neighbours.** Packets of one message type
were damaged anywhere but in their counts, and what arrives are their bytes, in any pieces. At any
time the verdicts so far are those of the first packets, one for each and as if it had come alone.
Once all bytes have arrived, a receiver that finds nothing complete has all the verdicts and an empty
buffer, and this comes about by looking as often as there are packets. So the order of arriving and
looking does not matter, and whatever happened to the others, an undamaged packet is handed out if
`decode` accepts it: exactly if none of the values of its records is lost (`FieldType.Loses`). -/
theorem receive_damaged (hm : s.message? typeId = some m) {packets altered : List Bytes}
    (hpackets : ∀ p ∈ packets, ∃ records flags, append s typeId records flags [] = (.ok (), p))
    (hspares : List.Forall₂ SparesCount packets altered) {rest : Bytes}
    (harrived : schedule.flatMap BufferStep.bytes ++ rest = altered.flatten) :
    (∃ done todo, altered = done ++ todo ∧
      (receive s typeId schedule []).1 = done.map (decode s typeId) ∧
      (receive s typeId schedule []).2 ++ rest = todo.flatten) ∧
    (rest = [] →
      ((decodeFront s typeId (receive s typeId schedule []).2).1 = .ok none →
        receive s typeId schedule [] = (altered.map (decode s typeId), [])) ∧
      (∀ k, altered.length ≤ k →
        receive s typeId (schedule ++ List.replicate k .decode) [] =
          (altered.map (decode s typeId), [])) ∧
      ∀ (i : Nat) (p : Bytes), packets[i]? = some p → altered[i]? = some p →
        (receive s typeId (schedule ++ List.replicate altered.length .decode) []).1[i]? =
            some (decode s typeId p) ∧
          ∀ records flags, append s typeId records flags [] = (.ok (), p) →
            ((∃ packet, (receive s typeId (schedule ++ List.replicate altered.length .decode)
                []).1[i]? = some (.ok packet)) ↔
              ∀ r ∈ records, ∀ v ∈ m.fields.zip r, ¬ v.1.type.Loses v.2)) := by
  have hwhole := whole_of_damaged hm hpackets hspares
  rw [← List.nil_append (schedule.flatMap _)] at harrived
  obtain ⟨done, todo, hsplit, hresults, htodo⟩ := receive_whole hm hwhole harrived
  refine ⟨⟨done, todo, hsplit, hresults, htodo⟩, ?_⟩
  rintro rfl
  rw [List.append_nil] at harrived htodo
  rw [List.nil_append] at harrived
  have hall {k : Nat} (hk : altered.length ≤ k) := receive_all hm hwhole harrived hk
  have hverdict {i : Nat} {p : Bytes} (hp : altered[i]? = some p) :
      (receive s typeId (schedule ++ List.replicate altered.length .decode) []).1[i]? =
        some (decode s typeId p) := by
    rw [hall (Nat.le_refl _), List.getElem?_map, hp]
    rfl
  refine ⟨fun hnone => ?_, fun k hk => hall hk,
    fun i p _ hp => ⟨hverdict hp, fun records flags happend => ?_⟩⟩
  · cases todo with
    | nil =>
      rw [List.append_nil] at hsplit
      exact Prod.ext (by rw [hresults, hsplit]) htodo
    | cons p todo =>
      -- a whole packet at the front would have had a verdict
      have hp := hwhole p (by rw [hsplit]; simp)
      rw [htodo, List.flatten_cons, decodeFront_whole hm hp] at hnone
      cases hdecode : decode s typeId p with
      | ok packet => rw [hdecode] at hnone; cases hnone
      | error cause => rw [hdecode] at hnone; cases hnone
  · simp only [hverdict hp, Option.some.injEq]
    exact exists_decode_iff hm happend

theorem receive_damaged_drive :
    append .builtin DriveCommand.typeId driveRecords .clearQueue [] = (.ok (), drivePacket) ∧
      SparesCount drivePacket (drivePacket.set 7 79) ∧
      receive .builtin DriveCommand.typeId
        [.arrive (drivePacket.set 7 79 ++ drivePacket.take 4), .decode, .decode,
          .arrive (drivePacket.drop 4), .decode, .decode] [] =
        ([.error (.checksumMismatch 1376017353 2662226775),
          .ok ⟨⟨.current, .clearQueue, 1⟩, DriveCommand.typeId,
            [[.float (Binary.ofInt 2), .float (Binary.ofInt (-1)), .int 500]]⟩], []) := by
  have happend : append .builtin DriveCommand.typeId driveRecords .clearQueue [] =
      (.ok (), drivePacket) := by decide +kernel
  have hspares : SparesCount drivePacket (drivePacket.set 7 79) :=
    ⟨List.length_set, by decide, by decide⟩
  have hpackets : ∀ p ∈ [drivePacket, drivePacket], ∃ records flags,
      append .builtin DriveCommand.typeId records flags [] = (.ok (), p) := by
    intro p hp
    obtain rfl : p = drivePacket := by simpa using hp
    exact ⟨_, _, happend⟩
  have harrived : [.arrive (drivePacket.set 7 79 ++ drivePacket.take 4), .decode, .decode,
        .arrive (drivePacket.drop 4)].flatMap BufferStep.bytes ++ [] =
      [drivePacket.set 7 79, drivePacket].flatten := by decide
  obtain ⟨-, hall⟩ := receive_damaged (m := DriveCommand.message) rfl hpackets
    (.cons hspares (.cons ⟨rfl, rfl, rfl⟩ .nil)) harrived
  refine ⟨happend, hspares, ((hall rfl).2.1 2 (Nat.le_refl 2)).trans ?_⟩
  have hbad : decode .builtin DriveCommand.typeId (drivePacket.set 7 79) =
      .error (.checksumMismatch 1376017353 2662226775) := by decide +kernel
  have hgood : decode .builtin DriveCommand.typeId drivePacket =
      .ok ⟨⟨.current, .clearQueue, 1⟩, DriveCommand.typeId,
        [[.float (Binary.ofInt 2), .float (Binary.ofInt (-1)), .int 500]]⟩ := by decide +kernel
  simp only [List.map_cons, List.map_nil, hbad, hgood]

/-- Not every undamaged packet is handed out, even if it is the only one. -/
theorem not_forall_delivered :
    ¬ ∀ (s : Schema) (typeId : UInt16) (packets altered : List Bytes) (schedule : List BufferStep),
      (∀ p ∈ packets, ∃ records flags, append s typeId records flags [] = (.ok (), p)) →
      List.Forall₂ SparesCount packets altered →
      schedule.flatMap BufferStep.bytes = altered.flatten →
      ∀ (i : Nat) (p : Bytes), packets[i]? = some p → altered[i]? = some p → ∃ packet,
        (receive s typeId (schedule ++ List.replicate altered.length .decode) []).1[i]? =
          some (.ok packet) := by
  intro hall
  have happend : append faintSchema 7 faintRecords .none [] = (.ok (), faintPacket) := by
    decide +kernel
  have hrefused : (receive faintSchema 7 [.arrive faintPacket, .decode] []).1 =
      [.error (.invalidRecord 0 (.field "x" .nonFinite))] := by decide +kernel
  obtain ⟨packet, hpacket⟩ := hall faintSchema 7 [faintPacket] [faintPacket] [.arrive faintPacket]
    (List.forall_mem_singleton.mpr ⟨_, _, happend⟩) (.cons ⟨rfl, rfl, rfl⟩ .nil) rfl 0 faintPacket
    rfl rfl
  change (receive faintSchema 7 [.arrive faintPacket, .decode] []).1[0]? = _ at hpacket
  rw [hrefused] at hpacket
  cases hpacket

end Packet

end CommandLink
