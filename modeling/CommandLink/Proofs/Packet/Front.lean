import CommandLink.Proofs.Packet.Corruption

/-!
# The front of a buffer

Whether a buffer begins with a whole packet is decided by the header at its front and by its length
(`Whole`, `Incomplete`), and not by what the checksum or the records say. So a refused packet is as
long as an accepted one.

* `incomplete_or_whole`: every buffer is one or begins with the other.
* `decodeFront_incomplete`, `decodeFront_whole`: a receiver waits for the first and takes exactly the
  second off the front, with the verdict that it gets alone.
-/

namespace CommandLink

/-- What stands behind a header does not change it. -/
theorem Header.parse?_append {bytes : Bytes} {h : Header} (hparse : parse? bytes = some h)
    (rest : Bytes) : parse? (bytes ++ rest) = some h := by
  rw [eq_toBytes_append hparse, List.append_assoc]
  exact parse?_toBytes h _

namespace Packet

/-- The bytes of one packet of records of `size` bytes, as its own header announces them. -/
def Whole (size : Nat) (bytes : Bytes) : Prop :=
  ∃ h, Header.parse? bytes = some h ∧ bytes.length = packetLength h.count.toNat size

/-- Fewer bytes than a header, or than it announces. -/
def Incomplete (size : Nat) (bytes : Bytes) : Prop :=
  ∀ h, Header.parse? bytes = some h → bytes.length < packetLength h.count.toNat size

variable {s : Schema} {typeId : UInt16} {m : Message} {size : Nat} {p q rest : Bytes}

theorem whole_frame {h : Header} {body : Bytes} (hbody : body.length = h.count.toNat * size)
    (carried : UInt32) : Whole size (frame h body carried) := by
  have hparse := parse?_frame h body carried []
  rw [List.append_nil] at hparse
  exact ⟨h, hparse, by rw [length_frame, hbody]; rfl⟩

/-- A whole packet has as many bytes of records as its header announces. -/
theorem Whole.exists_frame (hp : Whole size p) :
    ∃ h body carried, body.length = h.count.toNat * size ∧ p = frame h body carried := by
  obtain ⟨h, hparse, hlen⟩ := hp
  obtain ⟨body, carried, rest, hbody, rfl⟩ := Packet.exists_frame hparse (Nat.le_of_eq hlen.symm)
  obtain rfl : rest = [] := by
    rw [List.length_append, length_frame, hbody] at hlen
    unfold packetLength at hlen
    exact List.eq_nil_of_length_eq_zero (by omega)
  exact ⟨h, body, carried, hbody, List.append_nil _⟩

theorem incomplete_nil : Incomplete size [] := nofun

/-- **A buffer is incomplete or begins with a whole packet.** -/
theorem incomplete_or_whole (size : Nat) (buffer : Bytes) :
    Incomplete size buffer ∨ ∃ p rest, Whole size p ∧ buffer = p ++ rest := by
  cases hparse : Header.parse? buffer with
  | none => exact .inl fun h hh => by rw [hparse] at hh; cases hh
  | some h =>
    by_cases hshort : buffer.length < packetLength h.count.toNat size
    · refine .inl fun h' hh => ?_
      rw [hparse] at hh
      cases hh
      exact hshort
    obtain ⟨body, carried, rest, hbody, rfl⟩ := exists_frame hparse (Nat.not_lt.mp hshort)
    exact .inr ⟨_, rest, whole_frame hbody carried, rfl⟩

/-- What a buffer begins with does not depend on where it is cut. -/
theorem Whole.append_inj (hp : Whole size p) (hq : Whole size q) {a b : Bytes}
    (heq : p ++ a = q ++ b) : p = q ∧ a = b := by
  obtain ⟨h, hparse, hlen⟩ := hp
  obtain ⟨h', hparse', hlen'⟩ := hq
  have hsame := Header.parse?_append hparse a
  rw [heq, Header.parse?_append hparse' b] at hsame
  cases hsame
  exact List.append_inj heq (hlen.trans hlen'.symm)

theorem Whole.not_incomplete (hp : Whole size p) (rest : Bytes) : ¬ Incomplete size (p ++ rest) := by
  obtain ⟨h, hparse, hlen⟩ := hp
  intro hincomplete
  have := hincomplete h (Header.parse?_append hparse rest)
  rw [List.length_append] at this
  omega

/-- What was encoded for a message type is whole. -/
theorem whole_of_encode (hm : s.message? typeId = some m) {records : List Record} {flags : Flags}
    (hencode : encode s typeId records flags = .ok p) : Whole m.wireSize p := by
  obtain ⟨m', h, body, hm', -, -, hcount, hbody, rfl⟩ := encode_eq_ok.mp hencode
  obtain rfl : m = m' := Option.some.inj (hm.symm.trans hm')
  exact whole_frame (by rw [hcount, length_of_encodeRecords hbody]) _

/-! ## What a receiver does -/

/-- **A receiver waits for the rest of an incomplete packet.** -/
theorem decodeFront_incomplete (hm : s.message? typeId = some m) {buffer : Bytes}
    (hincomplete : Incomplete m.wireSize buffer) :
    decodeFront s typeId buffer = (.ok none, buffer) := by
  cases hparse : Header.parse? buffer with
  | none =>
    unfold decodeFront
    simp only [hm, hparse]
  | some h => exact decodeFront_short hm hparse (hincomplete h hparse)

/-- **Exactly a whole packet is taken off the front**, whatever is found wrong with it, and the
verdict is the one that it gets alone. -/
theorem decodeFront_whole (hm : s.message? typeId = some m) (hp : Whole m.wireSize p)
    (rest : Bytes) : decodeFront s typeId (p ++ rest) = ((decode s typeId p).map some, rest) := by
  obtain ⟨h, body, carried, hbody, rfl⟩ := hp.exists_frame
  have halone := decode_frame hm hbody carried []
  rw [List.append_nil, if_neg (not_not.mpr rfl)] at halone
  rw [decodeFront_frame hm hbody, halone]
  by_cases hcrc : carried ≠ Checksum.compute (h.toBytes ++ body)
  · rw [if_pos hcrc, if_pos hcrc]
    rfl
  by_cases hversion : h.version ≠ s.version
  · rw [if_neg hcrc, if_neg hcrc, if_pos hversion, if_pos hversion]
    rfl
  rw [if_neg hcrc, if_neg hcrc, if_neg hversion, if_neg hversion]
  cases decodeRecords m h.count.toNat body <;> rfl

/-- What a buffer that begins with a whole packet can be refused for. -/
theorem decode_whole_eq_error (hm : s.message? typeId = some m) (hp : Whole m.wireSize p)
    {cause : DecodeError} (hrefused : decode s typeId (p ++ rest) = .error cause) :
    (∃ carried computed, cause = .checksumMismatch carried computed) ∨
      (∃ found expected, cause = .unsupportedVersion found expected) ∨
      (rest ≠ [] ∧ cause = .trailingBytes rest.length) ∨
      ∃ index reason, cause = .invalidRecord index reason := by
  obtain ⟨h, body, carried, hbody, rfl⟩ := hp.exists_frame
  rw [decode_frame hm hbody] at hrefused
  split at hrefused
  · cases hrefused
    exact .inl ⟨_, _, rfl⟩
  split at hrefused
  · cases hrefused
    exact .inr (.inl ⟨_, _, rfl⟩)
  split at hrefused
  · cases hrefused
    exact .inr (.inr (.inl ⟨‹_›, rfl⟩))
  cases hrecords : decodeRecords m h.count.toNat body with
  | ok records =>
    rw [hrecords] at hrefused
    cases hrefused
  | error reason =>
    obtain ⟨i, -, reason, -, -, rfl, -⟩ := decodeRecords_eq_error.mp hrecords
    rw [hrecords] at hrefused
    cases hrefused
    exact .inr (.inr (.inr ⟨_, _, rfl⟩))

/-- A whole packet of a known message type is never refused for its type. -/
theorem decode_whole_ne_unknown (hm : s.message? typeId = some m) (hp : Whole m.wireSize p)
    (id : UInt16) : decode s typeId p ≠ .error (.unknownMessageType id) := by
  intro hunknown
  rw [← List.append_nil p] at hunknown
  rcases decode_whole_eq_error hm hp hunknown with
    ⟨_, _, h⟩ | ⟨_, _, h⟩ | ⟨-, h⟩ | ⟨_, _, h⟩ <;> cases h

end Packet

end CommandLink
