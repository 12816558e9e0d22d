import CommandLink.Proofs.Packet.Front

/-!
# The two decoders agree

A packet is decoded from a byte string that is exactly one packet (`decode`) or off the front of a
buffer (`decodeFront`). Both make the same of the bytes, and the second takes as many of them as the
header announces, whatever it makes of them.

* `decode_truncated_iff`: bytes are refused as truncated exactly if they are an incomplete packet.
* `decodeFront_agrees`: a receiver waits exactly while `decode` finds the buffer truncated, and
  otherwise takes one packet off the front with the verdict of `decode` on it.
-/

namespace CommandLink

namespace Packet

variable {s : Schema} {typeId : UInt16} {m : Message} {buffer p rest : Bytes}

theorem decode_whole_ne_truncated (hm : s.message? typeId = some m) (hp : Whole m.wireSize p)
    (needed available : Nat) :
    decode s typeId (p ++ rest) ≠ .error (.truncated needed available) := by
  intro htruncated
  rcases decode_whole_eq_error hm hp htruncated with
    ⟨_, _, h⟩ | ⟨_, _, h⟩ | ⟨-, h⟩ | ⟨_, _, h⟩ <;> cases h

/-- **Bytes are truncated exactly if they are an incomplete packet.** -/
theorem decode_truncated_iff (hm : s.message? typeId = some m) {bytes : Bytes} :
    (∃ needed available, decode s typeId bytes = .error (.truncated needed available)) ↔
      Incomplete m.wireSize bytes := by
  constructor
  · rintro ⟨needed, available, htruncated⟩
    rcases incomplete_or_whole m.wireSize bytes with hincomplete | ⟨p, rest, hp, rfl⟩
    · exact hincomplete
    · exact absurd htruncated (decode_whole_ne_truncated hm hp needed available)
  · intro hincomplete
    cases hparse : Header.parse? bytes with
    | none => exact ⟨_, _, decode_headless hm hparse⟩
    | some h => exact ⟨_, _, decode_short hm hparse (hincomplete h hparse)⟩

/-- Of an unknown message type nothing is taken. -/
theorem decodeFront_unknown (hunknown : s.message? typeId = none) (buffer : Bytes) :
    decodeFront s typeId buffer = (.error (.unknownMessageType typeId), buffer) := by
  unfold decodeFront
  rw [hunknown]

/-- A receiver waits exactly while the buffer is an incomplete packet. -/
theorem decodeFront_eq_none_iff (hm : s.message? typeId = some m) :
    decodeFront s typeId buffer = (.ok none, buffer) ↔ Incomplete m.wireSize buffer := by
  refine ⟨fun hwaits => ?_, decodeFront_incomplete hm⟩
  rcases incomplete_or_whole m.wireSize buffer with hincomplete | ⟨p, rest, hp, rfl⟩
  · exact hincomplete
  · rw [decodeFront_whole hm hp] at hwaits
    cases hverdict : decode s typeId p <;> rw [hverdict] at hwaits <;> cases hwaits

/-- What is taken off the front is never refused for its length. -/
theorem decodeFront_ne_length {cause : DecodeError}
    (hrefused : (decodeFront s typeId buffer).1 = .error cause) :
    (∀ needed available, cause ≠ .truncated needed available) ∧
      ∀ extra, cause ≠ .trailingBytes extra := by
  cases hm : s.message? typeId with
  | none =>
    rw [decodeFront_unknown hm] at hrefused
    cases hrefused
    exact ⟨nofun, nofun⟩
  | some m =>
    rcases incomplete_or_whole m.wireSize buffer with hincomplete | ⟨p, rest, hp, rfl⟩
    · rw [decodeFront_incomplete hm hincomplete] at hrefused
      cases hrefused
    have halone : decode s typeId (p ++ []) = .error cause := by
      rw [decodeFront_whole hm hp] at hrefused
      rw [List.append_nil]
      cases hverdict : decode s typeId p <;> rw [hverdict] at hrefused <;> cases hrefused
      rfl
    rcases decode_whole_eq_error hm hp halone with
      ⟨_, _, rfl⟩ | ⟨_, _, rfl⟩ | ⟨hrest, -⟩ | ⟨_, _, rfl⟩
    · exact ⟨nofun, nofun⟩
    · exact ⟨nofun, nofun⟩
    · exact absurd rfl hrest
    · exact ⟨nofun, nofun⟩

/-- **A receiver of a stream decodes as a receiver of whole packets.** Of an unknown message type it
takes nothing. Of a known one it waits, and leaves the buffer as it is, exactly while the buffer would
be refused as truncated. Otherwise it takes the bytes that the header announces off the front, and its
verdict is the one on exactly these bytes. It never refuses a packet for its length. -/
theorem decodeFront_agrees (s : Schema) (typeId : UInt16) (buffer : Bytes) :
    (s.message? typeId = none →
      decodeFront s typeId buffer = (.error (.unknownMessageType typeId), buffer)) ∧
    (∀ m, s.message? typeId = some m →
      (decodeFront s typeId buffer = (.ok none, buffer) ↔
        ∃ needed available, decode s typeId buffer = .error (.truncated needed available)) ∧
      ((∀ needed available, decode s typeId buffer ≠ .error (.truncated needed available)) →
        ∃ h, Header.parse? buffer = some h ∧
          packetLength h.count.toNat m.wireSize ≤ buffer.length ∧
          decodeFront s typeId buffer =
            ((decode s typeId (buffer.take (packetLength h.count.toNat m.wireSize))).map some,
              buffer.drop (packetLength h.count.toNat m.wireSize)))) ∧
    ∀ cause, (decodeFront s typeId buffer).1 = .error cause →
      (∀ needed available, cause ≠ .truncated needed available) ∧
        ∀ extra, cause ≠ .trailingBytes extra := by
  refine ⟨fun hunknown => decodeFront_unknown hunknown buffer, fun m hm => ⟨?_, fun hwhole => ?_⟩,
    fun cause => decodeFront_ne_length⟩
  · rw [decodeFront_eq_none_iff hm, decode_truncated_iff hm]
  rcases incomplete_or_whole m.wireSize buffer with hincomplete | ⟨p, rest, hp, rfl⟩
  · obtain ⟨needed, available, htruncated⟩ := (decode_truncated_iff hm).mpr hincomplete
    exact absurd htruncated (hwhole needed available)
  have hfront := decodeFront_whole hm hp rest
  obtain ⟨h, hparse, hlen⟩ := hp
  refine ⟨h, Header.parse?_append hparse rest, ?_, ?_⟩
  · rw [List.length_append]
    omega
  · rw [List.take_left' hlen, List.drop_left' hlen, hfront]

end Packet

end CommandLink
