import CommandLink.Peer.Negotiator

/-!
# Handshakes and their verdicts

A byte string that is long enough is four letters, four bytes of a hash and a rest, and the verdict on
it is read off the first two (`validate_parts`).

* `validate_eq_ok_iff`: the only handshake that is good for a receiver is its own.
* `feed_awaiting`: a negotiator that waits gathers bytes and leaves the verdict on eight of them to
  `Handshake.validate`.
-/

namespace CommandLink

theorem SchemaHash.toBytes_ofBytes {bytes : Bytes} (hlen : bytes.length = 4) :
    (ofBytes bytes).toBytes = bytes := by
  have hlt : Bytes.toNat bytes < 2 ^ 32 := by
    have := Bytes.toNat_lt bytes
    rwa [hlen] at this
  have hall := Bytes.ofNat_toNat bytes
  rw [hlen] at hall
  rw [ofBytes, toBytes, UInt32.toNat_ofNat_of_lt' hlt, hall]

namespace Handshake

variable {received letters hash rest : Bytes} {ours theirs : SchemaHash}

/-- The parts of a byte string that is long enough. -/
theorem exists_parts (henough : size ≤ received.length) :
    ∃ letters hash rest, letters.length = 4 ∧ hash.length = 4 ∧
      received = letters ++ hash ++ rest := by
  unfold size at henough
  refine ⟨received.take 4, (received.drop 4).take 4, received.drop 8, ?_, ?_, ?_⟩
  · rw [List.length_take]
    omega
  · rw [List.length_take, List.length_drop]
    omega
  · rw [List.append_assoc, ← List.drop_drop (i := 4) (j := 4), List.take_append_drop,
      List.take_append_drop]

/-- The verdict goes by the letters and then by the hash. -/
theorem validate_parts (hletters : letters.length = 4) (hhash : hash.length = 4) (rest : Bytes)
    (ours : SchemaHash) : validate (letters ++ hash ++ rest) ours =
      if letters ≠ magic then .error (.badMagic letters)
      else if SchemaHash.ofBytes hash ≠ ours then
        .error (.schemaMismatch ours (SchemaHash.ofBytes hash))
      else .ok (SchemaHash.ofBytes hash) := by
  have henough : ¬ (letters ++ hash ++ rest).length < size := by
    simp only [List.length_append, hletters, hhash, size]
    omega
  have hfront : (letters ++ hash ++ rest).take magic.length = letters := by
    rw [List.append_assoc]
    exact List.take_left' hletters
  have hback : ((letters ++ hash ++ rest).drop magic.length).take 4 = hash := by
    have hrest : (letters ++ (hash ++ rest)).drop magic.length = hash ++ rest :=
      List.drop_left' hletters
    rw [List.append_assoc, hrest]
    exact List.take_left' hhash
  unfold validate
  rw [if_neg henough]
  simp only [hfront, hback]

/-- **The only handshake that is good for a receiver is its own.** -/
theorem validate_eq_ok_iff :
    validate received ours = .ok theirs ↔ received.take size = encode ours ∧ theirs = ours := by
  constructor
  · intro hvalid
    have henough : size ≤ received.length := by
      apply Nat.le_of_not_lt
      intro hshort
      rw [validate, if_pos hshort] at hvalid
      cases hvalid
    obtain ⟨letters, hash, rest, hletters, hhash, rfl⟩ := exists_parts henough
    rw [validate_parts hletters hhash] at hvalid
    split at hvalid
    · cases hvalid
    split at hvalid
    · cases hvalid
    rename_i hmagic hours
    cases hvalid
    refine ⟨?_, Classical.not_not.mp hours⟩
    have hsize : (letters ++ hash).length = size := by rw [List.length_append, hletters, hhash, size]
    rw [List.take_left' hsize, encode, ← Classical.not_not.mp hours,
      SchemaHash.toBytes_ofBytes hhash, Classical.not_not.mp hmagic]
  · rintro ⟨hfront, rfl⟩
    have hgood := validate_encode theirs (received.drop size)
    rwa [← hfront, List.take_append_drop] at hgood

/-- Another handshake is refused for its letters or for its hash. -/
theorem validate_other (henough : size ≤ received.length)
    (hother : received.take size ≠ encode ours) :
    ∃ cause, validate received ours = .error cause ∧
      ((∃ found, cause = .badMagic found) ∨ ∃ theirs, cause = .schemaMismatch ours theirs) := by
  obtain ⟨letters, hash, rest, hletters, hhash, rfl⟩ := exists_parts henough
  have hverdict := validate_parts hletters hhash rest ours
  by_cases hmagic : letters ≠ magic
  · rw [if_pos hmagic] at hverdict
    exact ⟨_, hverdict, .inl ⟨_, rfl⟩⟩
  by_cases hours : SchemaHash.ofBytes hash ≠ ours
  · rw [if_neg hmagic, if_pos hours] at hverdict
    exact ⟨_, hverdict, .inr ⟨_, rfl⟩⟩
  rw [if_neg hmagic, if_neg hours, Classical.not_not.mp hours] at hverdict
  exact absurd (validate_eq_ok_iff.mp hverdict).1 hother

end Handshake

namespace Negotiator

variable {ours : SchemaHash} {received bytes : Bytes} {waiting : received.length < Handshake.size}

/-- **Feeding a negotiator that waits**: bytes are gathered up to the eighth, which decides. -/
theorem feed_awaiting {result : Except HandshakeError Nat} {fed : Negotiator}
    (hfits : bytes.length ≤ remaining ⟨ours, .awaitingPeer received waiting⟩)
    (hfeed : feed ⟨ours, .awaitingPeer received waiting⟩ bytes = (result, fed)) :
    (∃ hless : (received ++ bytes).length < Handshake.size,
      result = .ok bytes.length ∧ fed = ⟨ours, .awaitingPeer (received ++ bytes) hless⟩) ∨
    (received ++ bytes).length = Handshake.size ∧
      ((∃ theirs, Handshake.validate (received ++ bytes) ours = .ok theirs ∧
          result = .ok bytes.length ∧ fed = ⟨ours, .validated theirs⟩) ∨
        ∃ cause, Handshake.validate (received ++ bytes) ours = .error cause ∧
          result = .error cause ∧ fed = ⟨ours, .rejected cause⟩) := by
  unfold remaining at hfits
  unfold feed at hfeed
  simp only [List.take_of_length_le hfits] at hfits hfeed
  split at hfeed
  · rename_i hless
    cases hfeed
    exact .inl ⟨hless, rfl, rfl⟩
  · have hall : (received ++ bytes).length = Handshake.size := by
      rw [List.length_append] at *
      omega
    refine .inr ⟨hall, ?_⟩
    split at hfeed <;> rename_i hverdict <;> cases hfeed
    · exact .inl ⟨_, hverdict, rfl, rfl⟩
    · exact .inr ⟨_, hverdict, rfl, rfl⟩

end Negotiator

end CommandLink
