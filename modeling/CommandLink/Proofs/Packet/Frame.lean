import CommandLink.Proofs.Packet.Appending

/-!
# Frames

A **frame** is a header, a body and a carried checksum (`frame`). Every byte string that holds the
bytes its own header announces is a frame with something behind it (`exists_frame`), and what a
receiver makes of it is decided by the checksum, then the version, then what follows, then the
records.

* `decode_frame`, `decodeFront_frame`: the two decoders on a frame with something behind it.
* `encode_eq_ok`: what the encoder produces is the frame that carries its own checksum.
* `decode_eq_ok`: what the decoder accepts is such a frame, of the schema's version and with nothing
  behind.
-/

namespace CommandLink

namespace Header

/-- Where a header is read, its bytes are. -/
theorem eq_toBytes_append {bytes : Bytes} {h : Header} (hparse : parse? bytes = some h) :
    bytes = h.toBytes ++ bytes.drop size := by
  unfold parse? at hparse
  split at hparse
  · rename_i major minor flags high low rest
    cases hparse
    have hlt : Bytes.toNat [high, low] < 256 ^ 2 := Bytes.toNat_lt [high, low]
    have hback : Bytes.ofNat 2 (Bytes.toNat [high, low]) = [high, low] :=
      Bytes.ofNat_toNat [high, low]
    unfold toBytes
    rw [UInt16.toNat_ofNat_of_lt' hlt, hback]
    rfl
  · cases hparse

theorem parse?_eq_none {bytes : Bytes} : parse? bytes = none ↔ bytes.length < size := by
  rcases bytes with _ | ⟨_, _ | ⟨_, _ | ⟨_, _ | ⟨_, _ | ⟨_, rest⟩⟩⟩⟩⟩ <;> simp [parse?, size]

end Header

namespace Packet

/-- A header, a body and a carried checksum, as they travel. -/
def frame (h : Header) (body : Bytes) (carried : UInt32) : Bytes :=
  h.toBytes ++ body ++ Bytes.ofNat Checksum.size carried.toNat

variable {s : Schema} {typeId : UInt16} {m : Message} {h : Header} {body : Bytes}

@[simp] theorem length_frame (h : Header) (body : Bytes) (carried : UInt32) :
    (frame h body carried).length = Header.size + body.length + Checksum.size := by
  unfold frame
  rw [List.length_append, List.length_append, Header.length_toBytes, Bytes.length_ofNat]

theorem parse?_frame (h : Header) (body : Bytes) (carried : UInt32) (rest : Bytes) :
    Header.parse? (frame h body carried ++ rest) = some h := by
  unfold frame
  rw [List.append_assoc, List.append_assoc]
  exact Header.parse?_toBytes h _

theorem withChecksum_eq_frame (h : Header) (body : Bytes) :
    withChecksum (h.toBytes ++ body) = frame h body (Checksum.compute (h.toBytes ++ body)) := rfl

/-- **Bytes that hold what their header announces are a frame with something behind it.** -/
theorem exists_frame {bytes : Bytes} {n : Nat} (hparse : Header.parse? bytes = some h)
    (hlen : Header.size + n + Checksum.size ≤ bytes.length) :
    ∃ body carried rest, body.length = n ∧ bytes = frame h body carried ++ rest := by
  have hhead := Header.eq_toBytes_append hparse
  generalize bytes.drop Header.size = tail at hhead
  subst hhead
  rw [List.length_append, Header.length_toBytes] at hlen
  have htrailer : ((tail.drop n).take Checksum.size).length = Checksum.size := by
    rw [List.length_take, List.length_drop]
    omega
  have hlt := Bytes.toNat_lt ((tail.drop n).take Checksum.size)
  rw [htrailer] at hlt
  have hback := Bytes.ofNat_toNat ((tail.drop n).take Checksum.size)
  rw [htrailer] at hback
  refine ⟨tail.take n, UInt32.ofNat (Bytes.toNat ((tail.drop n).take Checksum.size)),
    (tail.drop n).drop Checksum.size, by rw [List.length_take]; omega, ?_⟩
  unfold frame
  rw [UInt32.toNat_ofNat_of_lt' hlt, hback, List.append_assoc, List.append_assoc,
    List.take_append_drop, List.take_append_drop]

/-! ## Decoding -/

/-- The checks of a frame in their order. -/
theorem verify_frame (h' : Header) (carried : UInt32) : verify s h' (frame h body carried) =
    if carried ≠ Checksum.compute (h.toBytes ++ body) then
      .error (.checksumMismatch carried (Checksum.compute (h.toBytes ++ body)))
    else if h'.version ≠ s.version then .error (.unsupportedVersion h'.version s.version)
    else .ok () := by
  have hcut : (frame h body carried).length - Checksum.size = (h.toBytes ++ body).length := by
    rw [length_frame, List.length_append, Header.length_toBytes]
    omega
  have hcarried :
      UInt32.ofNat (Bytes.toNat (Bytes.ofNat Checksum.size carried.toNat)) = carried := by
    have hlt : carried.toNat < 256 ^ Checksum.size := carried.toNat_lt
    rw [Bytes.toNat_ofNat, Nat.mod_eq_of_lt hlt, UInt32.ofNat_toNat]
  unfold verify
  rw [hcut]
  unfold frame
  rw [List.take_left' rfl, List.drop_left' rfl, hcarried]

variable (hm : s.message? typeId = some m) (hlen : body.length = h.count.toNat * m.wireSize)

include hlen in
theorem length_frame_eq (carried : UInt32) :
    (frame h body carried).length = packetLength h.count.toNat m.wireSize := by
  rw [length_frame, hlen]
  rfl

include hlen in
/-- The records of a frame are those of its body. -/
theorem ofVerified_frame (carried : UInt32) (rest : Bytes) :
    ofVerified m typeId h (frame h body carried ++ rest) =
      (decodeRecords m h.count.toNat body).map fun records => ⟨h, typeId, records⟩ := by
  unfold ofVerified frame
  rw [List.append_assoc, List.append_assoc, List.drop_left' (Header.length_toBytes h),
    decodeRecords_append hlen]

include hm hlen in
/-- **What a receiver makes of a frame with something behind it.** -/
theorem decode_frame (carried : UInt32) (rest : Bytes) :
    decode s typeId (frame h body carried ++ rest) =
      if carried ≠ Checksum.compute (h.toBytes ++ body) then
        .error (.checksumMismatch carried (Checksum.compute (h.toBytes ++ body)))
      else if h.version ≠ s.version then .error (.unsupportedVersion h.version s.version)
      else if rest ≠ [] then .error (.trailingBytes rest.length)
      else (decodeRecords m h.count.toNat body).map fun records => ⟨h, typeId, records⟩ := by
  have htotal := length_frame_eq hlen carried
  unfold decode
  simp only [hm, parse?_frame]
  rw [List.length_append, htotal, if_neg (by omega), List.take_left' htotal, verify_frame,
    ofVerified_frame hlen]
  by_cases hcrc : carried ≠ Checksum.compute (h.toBytes ++ body)
  · rw [if_pos hcrc, if_pos hcrc]
  by_cases hversion : h.version ≠ s.version
  · rw [if_neg hcrc, if_neg hcrc, if_pos hversion, if_pos hversion]
  rw [if_neg hcrc, if_neg hcrc, if_neg hversion, if_neg hversion]
  cases rest with
  | nil =>
    rw [List.length_nil, if_neg (by omega), if_neg (by simp)]
  | cons b rest =>
    rw [List.length_cons, if_pos (by omega), if_pos (List.cons_ne_nil _ _), Nat.add_sub_cancel_left]

include hm hlen in
/-- What a stream's receiver takes off the front of its buffer. -/
theorem decodeFront_frame (carried : UInt32) (rest : Bytes) :
    decodeFront s typeId (frame h body carried ++ rest) =
      (if carried ≠ Checksum.compute (h.toBytes ++ body) then
        .error (.checksumMismatch carried (Checksum.compute (h.toBytes ++ body)))
      else if h.version ≠ s.version then .error (.unsupportedVersion h.version s.version)
      else (decodeRecords m h.count.toNat body).map fun records => some ⟨h, typeId, records⟩,
      rest) := by
  have htotal := length_frame_eq hlen carried
  have hrecords : ofVerified m typeId h (frame h body carried ++ []) = _ :=
    ofVerified_frame hlen carried []
  rw [List.append_nil] at hrecords
  unfold decodeFront
  simp only [hm, parse?_frame]
  rw [List.length_append, htotal, if_neg (by omega), List.take_left' htotal,
    List.drop_left' htotal, verify_frame, hrecords]
  by_cases hcrc : carried ≠ Checksum.compute (h.toBytes ++ body)
  · rw [if_pos hcrc, if_pos hcrc]
  by_cases hversion : h.version ≠ s.version
  · rw [if_neg hcrc, if_neg hcrc, if_pos hversion, if_pos hversion]
  rw [if_neg hcrc, if_neg hcrc, if_neg hversion, if_neg hversion]
  cases decodeRecords m h.count.toNat body <;> rfl

include hm in
/-- Bytes without a whole header are not a packet yet. -/
theorem decode_headless {bytes : Bytes} (hparse : Header.parse? bytes = none) :
    decode s typeId bytes = .error (.truncated Header.size bytes.length) := by
  unfold decode
  simp only [hm, hparse]

include hm in
/-- Fewer bytes than the header announces are not a packet yet. -/
theorem decode_short {bytes : Bytes} (hparse : Header.parse? bytes = some h)
    (hshort : bytes.length < packetLength h.count.toNat m.wireSize) :
    decode s typeId bytes =
      .error (.truncated (packetLength h.count.toNat m.wireSize) bytes.length) := by
  unfold decode
  simp only [hm, hparse]
  rw [if_pos hshort]

include hm in
theorem decodeFront_short {bytes : Bytes} (hparse : Header.parse? bytes = some h)
    (hshort : bytes.length < packetLength h.count.toNat m.wireSize) :
    decodeFront s typeId bytes = (.ok none, bytes) := by
  unfold decodeFront
  simp only [hm, hparse]
  rw [if_pos hshort]

/-- Bytes lack a whole header, or some of what their header announces, or begin with a frame. -/
theorem headless_or_short_or_frame (size : Nat) (bytes : Bytes) :
    Header.parse? bytes = none ∨
      (∃ h, Header.parse? bytes = some h ∧ bytes.length < packetLength h.count.toNat size) ∨
      ∃ h body carried rest, body.length = h.count.toNat * size ∧
        bytes = frame h body carried ++ rest := by
  cases hparse : Header.parse? bytes with
  | none => exact .inl rfl
  | some h =>
    by_cases hshort : bytes.length < packetLength h.count.toNat size
    · exact .inr (.inl ⟨h, rfl, hshort⟩)
    · obtain ⟨body, carried, rest, hframe⟩ := exists_frame hparse (Nat.not_lt.mp hshort)
      exact .inr (.inr ⟨h, body, carried, rest, hframe⟩)

theorem exists_message_of_decode {bytes : Bytes} {p : Packet}
    (hdecode : decode s typeId bytes = .ok p) : ∃ m, s.message? typeId = some m := by
  cases hm : s.message? typeId with
  | none =>
    unfold decode at hdecode
    rw [hm] at hdecode
    cases hdecode
  | some m => exact ⟨m, rfl⟩

/-- **What is accepted is one frame**, with its own checksum and of the schema's version. -/
theorem decode_eq_ok {bytes : Bytes} {p : Packet} : decode s typeId bytes = .ok p ↔
    ∃ m body, s.message? typeId = some m ∧ p.typeId = typeId ∧ p.header.version = s.version ∧
      body.length = p.header.count.toNat * m.wireSize ∧
      decodeRecords m p.header.count.toNat body = .ok p.records ∧
      bytes = frame p.header body (Checksum.compute (p.header.toBytes ++ body)) := by
  constructor
  · intro hdec
    obtain ⟨m, hm⟩ := exists_message_of_decode hdec
    rcases headless_or_short_or_frame m.wireSize bytes with
      hnone | ⟨h, hparse, hshort⟩ | ⟨h, body, carried, rest, hlen, rfl⟩
    · rw [decode_headless hm hnone] at hdec
      cases hdec
    · rw [decode_short hm hparse hshort] at hdec
      cases hdec
    rw [decode_frame hm hlen] at hdec
    split at hdec
    · cases hdec
    rename_i hcrc
    split at hdec
    · cases hdec
    rename_i hversion
    split at hdec
    · cases hdec
    rename_i hrest
    cases hrecords : decodeRecords m h.count.toNat body with
    | error e =>
      rw [hrecords] at hdec
      cases hdec
    | ok records =>
      rw [hrecords] at hdec
      cases hdec
      refine ⟨m, body, hm, rfl, not_not.mp hversion, hlen, hrecords, ?_⟩
      rw [not_not.mp hrest, List.append_nil, not_not.mp hcrc]
  · rintro ⟨m, body, hm, rfl, hversion, hlen, hrecords, rfl⟩
    have := decode_frame hm hlen (Checksum.compute (p.header.toBytes ++ body)) []
    rw [List.append_nil] at this
    rw [this, if_neg (by simp), if_neg (by simp [hversion]), if_neg (by simp), hrecords]
    rfl

/-! ## Encoding -/

/-- **What is produced is one frame**, with its own checksum and of the schema's version. -/
theorem encode_eq_ok {records : List Record} {flags : Flags} {bytes : Bytes} :
    encode s typeId records flags = .ok bytes ↔
      ∃ m h body, s.message? typeId = some m ∧ h.version = s.version ∧ h.flags = flags ∧
        h.count.toNat = records.length ∧ encodeRecords m records = .ok body ∧
        bytes = frame h body (Checksum.compute (h.toBytes ++ body)) := by
  have hlimit : Header.maxCount + 1 = UInt16.size := rfl
  constructor
  · intro henc
    unfold encode at henc
    cases hm : s.message? typeId with
    | none =>
      simp only [hm] at henc
      cases henc
    | some m =>
      simp only [hm] at henc
      split at henc
      · cases henc
      rename_i hcount
      cases hbody : encodeRecords m records with
      | error e =>
        rw [hbody] at henc
        cases henc
      | ok body =>
        rw [hbody] at henc
        cases henc
        have hlt : records.length < UInt16.size := by omega
        exact ⟨m, ⟨s.version, flags, UInt16.ofNat records.length⟩, body, rfl, rfl, rfl,
          UInt16.toNat_ofNat_of_lt' hlt, hbody, withChecksum_eq_frame _ _⟩
  · rintro ⟨m, ⟨version, flags, count⟩, body, hm, rfl, rfl, hcount, hbody, rfl⟩
    have hlt : count.toNat < UInt16.size := count.toNat_lt
    simp only at hcount
    have hback : UInt16.ofNat records.length = count := by
      rw [← hcount, UInt16.ofNat_toNat]
    unfold encode
    simp only [hm]
    rw [if_neg (by omega), hbody, hback]
    rfl

/-- Appending succeeds where encoding does. -/
theorem append_eq_ok {records : List Record} {flags : Flags} {buffer out : Bytes} :
    append s typeId records flags buffer = (.ok (), out) ↔
      ∃ bytes, encode s typeId records flags = .ok bytes ∧ out = buffer ++ bytes := by
  rw [append_eq]
  cases encode s typeId records flags with
  | ok bytes => simp [eq_comm]
  | error e => simp

/-- What was appended is a frame with a body of as many records as its header announces. -/
theorem exists_frame_of_append {records : List Record} {flags : Flags} {buffer out : Bytes}
    (happend : append s typeId records flags buffer = (.ok (), out)) :
    ∃ m h body, s.message? typeId = some m ∧ h.version = s.version ∧ h.flags = flags ∧
      h.count.toNat = records.length ∧ encodeRecords m records = .ok body ∧
      body.length = h.count.toNat * m.wireSize ∧
      out = buffer ++ frame h body (Checksum.compute (h.toBytes ++ body)) := by
  obtain ⟨bytes, hencode, rfl⟩ := append_eq_ok.mp happend
  obtain ⟨m, h, body, hm, hversion, hflags, hcount, hbody, rfl⟩ := encode_eq_ok.mp hencode
  have hlen : body.length = h.count.toNat * m.wireSize := by
    rw [hcount, length_of_encodeRecords hbody]
  exact ⟨m, h, body, hm, hversion, hflags, hcount, hbody, hlen, rfl⟩

end Packet

end CommandLink
