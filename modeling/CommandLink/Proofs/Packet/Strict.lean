import CommandLink.Proofs.Packet.Frame
import CommandLink.Proofs.Record.Strict
import CommandLink.Proofs.Schema.Registry

/-!
# Packets, read with every access checked

The two packet decoders with the accesses of `Strict`: the header's bytes are taken one after the other,
the announced length is a 64-bit size that may be the largest one, the packet is cut off at that length,
the checksum is split off its end, and what is left between header and checksum is cut into records.

* **Parts** (`parseHeader`, `verify`, `decodeRecords`): each of them has an outcome, the last two where
  the packet has room for a header and a checksum.
* `exists_decode`, `exists_decodeFront`: so the decoders always have one, whatever the bytes are. It is
  that of `Packet.decode` and `Packet.decodeFront` if the lengths of the schema's packets are 64-bit sizes.
-/

namespace CommandLink

namespace Strict

variable {s : Schema} {typeId : UInt16} {m : Message} {header : Header} {packet bytes buffer : Bytes}

/-! ## Definitions -/

/-- The header at the front of `bytes`, if there are enough of them. -/
def parseHeader (bytes : Bytes) : Option (Option Header) :=
  if bytes.length < Header.size then some none
  else do
    let front ← slice bytes 0 Header.size
    let (major, rest) ← split front 1
    let (minor, rest) ← split rest 1
    let (flags, rest) ← split rest 1
    let (count, _) ← split rest 2
    let byte (part : Bytes) := UInt8.ofNat (Bytes.toNat part)
    return some ⟨⟨byte major, byte minor⟩, ⟨byte flags⟩, UInt16.ofNat (Bytes.toNat count)⟩

/-- Checks the checksum and then the version of the bytes of one packet. -/
def verify (s : Schema) (header : Header) (packet : Bytes) : Strict DecodeError Unit := do
  let place ← difference packet.length Checksum.size
  let (body, trailer) ← split packet place
  let (carried, _) ← split trailer Checksum.size
  let carried := UInt32.ofNat (Bytes.toNat carried)
  let computed := Checksum.compute body
  if carried ≠ computed then throw (.checksumMismatch carried computed)
  else if header.version ≠ s.version then throw (.unsupportedVersion header.version s.version)
  else return ()

/-- The record that a piece of a packet is. -/
def decodePiece (m : Message) (piece : Bytes) (index : Nat) : Strict DecodeError Record := do
  let (record, _) ← (decodeRecord m piece).adapt (.invalidRecord index)
  return record

/-- The records between the header and the checksum of a packet. -/
def decodeRecords (m : Message) (packet : Bytes) : Strict DecodeError (List Record) := do
  let stop ← difference packet.length Checksum.size
  let body ← slice packet Header.size stop
  if m.wireSize = 0 then return []
  else
    let pieces ← chunks m.wireSize body
    pieces.zipIdx.mapM fun (piece, index) => decodePiece m piece index

/-- The packet with the given header, from verified bytes. -/
def ofVerified (m : Message) (typeId : UInt16) (header : Header) (packet : Bytes) :
    Strict DecodeError Packet := do
  let records ← decodeRecords m packet
  return ⟨header, typeId, records⟩

/-- The packet that `bytes` are. -/
def decode (s : Schema) (typeId : UInt16) (bytes : Bytes) : Strict DecodeError Packet :=
  match s.message? typeId with
  | none => throw (.unknownMessageType typeId)
  | some m => do
    match ← parseHeader bytes with
    | none => throw (.truncated Header.size bytes.length)
    | some header =>
      let total := packetSize header.count.toNat m.wireSize
      if bytes.length < total then throw (.truncated total bytes.length)
      else
        let packet ← slice bytes 0 total
        verify s header packet
        if total < bytes.length then
          let extra ← difference bytes.length total
          throw (.trailingBytes extra)
        else ofVerified m typeId header packet

/-- Takes the packet at the front of `buffer`: nothing while it is incomplete, when room is made for what
is missing. -/
def decodeFront (s : Schema) (typeId : UInt16) (buffer : Bytes) :
    Option (Except DecodeError (Option Packet) × Bytes) :=
  match s.message? typeId with
  | none => return (.error (.unknownMessageType typeId), buffer)
  | some m => do
    match ← parseHeader buffer with
    | none => return (.ok none, buffer)
    | some header =>
      let total := packetSize header.count.toNat m.wireSize
      if buffer.length < total then
        let _missing ← difference total buffer.length
        return (.ok none, buffer)
      else
        let (packet, rest) ← split buffer total
        match ← (verify s header packet).run with
        | .error e => return (.error e, rest)
        | .ok () =>
          let outcome ← (ofVerified m typeId header packet).run
          return (outcome.map some, rest)

/-! ## Parts -/

theorem ofNat_toNat_singleton (b : UInt8) : UInt8.ofNat (Bytes.toNat [b]) = b := by
  rw [Bytes.toNat_cons, List.length_nil, Nat.pow_zero, Nat.mul_one]
  exact UInt8.ofNat_toNat

/-- **No byte of a header is missing** where there are enough of them. -/
theorem parseHeader_eq (bytes : Bytes) : parseHeader bytes = some (Header.parse? bytes) := by
  unfold parseHeader
  split
  · rename_i hshort
    rw [Header.parse?_eq_none.mpr hshort]
  · rename_i henough
    rcases bytes with _ | ⟨major, _ | ⟨minor, _ | ⟨flags, _ | ⟨high, _ | ⟨low, rest⟩⟩⟩⟩⟩
    iterate 5 exact absurd (by simp [Header.size]) henough
    rw [slice_eq (Nat.zero_le _) (Nat.not_lt.mp henough)]
    change some (some (Header.mk ⟨UInt8.ofNat (Bytes.toNat [major]), UInt8.ofNat (Bytes.toNat [minor])⟩
      ⟨UInt8.ofNat (Bytes.toNat [flags])⟩ (UInt16.ofNat (Bytes.toNat [high, low])))) = _
    rw [ofNat_toNat_singleton, ofNat_toNat_singleton, ofNat_toNat_singleton]
    rfl

/-- **The checksum is split off inside a packet** that has room for one. -/
theorem verify_eq (hroom : Checksum.size ≤ packet.length) :
    verify s header packet = verdict (Packet.verify s header packet) := by
  have htrailer : (packet.drop (packet.length - Checksum.size)).length = Checksum.size := by
    rw [List.length_drop]
    omega
  have hall : (packet.drop (packet.length - Checksum.size)).take Checksum.size =
      packet.drop (packet.length - Checksum.size) := List.take_of_length_le (Nat.le_of_eq htrailer)
  unfold verify Packet.verify
  simp only [difference_eq hroom, split_eq (Nat.sub_le ..), split_eq (Nat.le_of_eq htrailer.symm),
    access_bind, hall]
  split
  · rfl
  · split <;> rfl

theorem decodePiece_eq (m : Message) (piece : Bytes) (index : Nat) :
    decodePiece m piece index = verdict ((m.decode piece).mapError (.invalidRecord index)) := by
  unfold decodePiece
  rw [decodeRecord_eq]
  cases m.decode piece <;> rfl

/-- **The records are cut out of a packet** that has room for a header and a checksum. -/
theorem exists_decodeRecords (hsize : 0 < m.wireSize)
    (hroom : Header.size + Checksum.size ≤ packet.length) :
    ∃ records, decodeRecords m packet = verdict records ∧
      ∀ count, packet.length = packetLength count m.wireSize →
        records = Packet.decodeRecords m count (packet.drop Header.size) := by
  have hstop : Header.size ≤ packet.length - Checksum.size := by omega
  let body := (packet.take (packet.length - Checksum.size)).drop Header.size
  have hbody : body.length = packet.length - Checksum.size - Header.size := by
    rw [List.length_drop, List.length_take, Nat.min_eq_left (Nat.sub_le ..)]
  refine ⟨Packet.decodeRecords m (body.length / m.wireSize) body, ?_, fun count hlength => ?_⟩
  · unfold decodeRecords Packet.decodeRecords
    simp only [difference_eq (Nat.le_of_add_left_le hroom), slice_eq hstop (Nat.sub_le ..),
      access_bind, if_neg (Nat.ne_of_gt hsize), chunks_eq hsize, decodePiece_eq]
    exact mapM_verdict _ _
  · -- The checksum stands behind the records, and the pieces do not depend on it.
    rw [packetLength] at hlength
    have hcount : body.length = count * m.wireSize := by omega
    have hback : packet.drop Header.size = body ++ packet.drop (packet.length - Checksum.size) := by
      rw [← List.drop_append_of_le_length, List.take_append_drop]
      rw [List.length_take, Nat.min_eq_left (Nat.sub_le ..)]
      exact hstop
    rw [hback, Packet.decodeRecords_append hcount, hcount, Nat.mul_div_cancel _ hsize]

theorem exists_ofVerified (typeId : UInt16) (header : Header) (hsize : 0 < m.wireSize)
    (hroom : Header.size + Checksum.size ≤ packet.length) :
    ∃ outcome, ofVerified m typeId header packet = verdict outcome ∧
      (packet.length = packetLength header.count.toNat m.wireSize →
        outcome = Packet.ofVerified m typeId header packet) := by
  obtain ⟨records, hrecords, hsame⟩ := exists_decodeRecords hsize hroom
  refine ⟨records.map (⟨header, typeId, ·⟩), ?_, fun hlength => ?_⟩
  · unfold ofVerified
    rw [hrecords]
    cases records <;> rfl
  · rw [hsame _ hlength]
    rfl

/-! ## Decoders -/

/-- The lengths of the packets of this type are 64-bit sizes. -/
def Fits (s : Schema) (typeId : UInt16) : Prop :=
  ∀ m, s.message? typeId = some m → packetLength Header.maxCount m.wireSize < 2 ^ 64

theorem Fits.packetSize_eq (hfits : Fits s typeId) (hm : s.message? typeId = some m)
    (header : Header) : packetSize header.count.toNat m.wireSize =
      packetLength header.count.toNat m.wireSize := by
  have hlt : packetLength Header.maxCount m.wireSize < 2 ^ 64 := hfits m hm
  have hcount : header.count.toNat ≤ Header.maxCount := Nat.le_of_lt_succ header.count.toNat_lt
  have hmono : header.count.toNat * m.wireSize ≤ Header.maxCount * m.wireSize :=
    Nat.mul_le_mul_right m.wireSize hcount
  unfold packetSize
  unfold packetLength at *
  omega

/-- However long a packet is announced to be, it has room for a header and a checksum. -/
theorem room_le_packetSize (count size : Nat) : Header.size + Checksum.size ≤ packetSize count size := by
  have hsizes : Header.size + Checksum.size = 9 := rfl
  unfold packetSize packetLength
  omega

/-- The checksum of a packet is split off inside as many bytes as are announced. -/
theorem verify_front {count size : Nat} (s : Schema) (header : Header)
    (htotal : packetSize count size ≤ bytes.length) :
    verify s header (bytes.take (packetSize count size)) =
      verdict (Packet.verify s header (bytes.take (packetSize count size))) := by
  have hroom := room_le_packetSize count size
  refine verify_eq ?_
  rw [List.length_take_of_le htotal]
  omega

/-- The records of a packet are cut out of as many bytes as are announced. -/
theorem exists_ofVerified_front (hm : s.message? typeId = some m)
    (htotal : packetSize header.count.toNat m.wireSize ≤ bytes.length) :
    ∃ outcome,
      ofVerified m typeId header (bytes.take (packetSize header.count.toNat m.wireSize)) =
        verdict outcome ∧
      (Fits s typeId → outcome = Packet.ofVerified m typeId header
        (bytes.take (packetSize header.count.toNat m.wireSize))) := by
  have hsize : 0 < m.wireSize := (Schema.wellFormed_of_message? hm).wireSize_pos
  have hlength := List.length_take_of_le htotal
  obtain ⟨outcome, houtcome, hsame⟩ := exists_ofVerified typeId header hsize
    (Nat.le_trans (room_le_packetSize header.count.toNat m.wireSize) (Nat.le_of_eq hlength.symm))
  exact ⟨outcome, houtcome, fun hfits => hsame (hlength.trans (hfits.packetSize_eq hm header))⟩

/-- **One packet is decoded inside its bytes**, whatever they are. -/
theorem exists_decode (s : Schema) (typeId : UInt16) (bytes : Bytes) :
    ∃ outcome, decode s typeId bytes = verdict outcome ∧
      (Fits s typeId → outcome = Packet.decode s typeId bytes) := by
  unfold decode Packet.decode
  cases hm : s.message? typeId with
  | none => exact ⟨.error (.unknownMessageType typeId), rfl, fun _ => rfl⟩
  | some m =>
    simp only [parseHeader_eq, access_bind]
    cases Header.parse? bytes with
    | none => exact ⟨.error (.truncated Header.size bytes.length), rfl, fun _ => rfl⟩
    | some header =>
      have hwhole (hfits : Fits s typeId) := hfits.packetSize_eq hm header
      dsimp only
      by_cases hshort : bytes.length < packetSize header.count.toNat m.wireSize
      · refine ⟨_, if_pos hshort, fun hfits => ?_⟩
        rw [← hwhole hfits, if_pos hshort]
      have htotal := Nat.not_lt.mp hshort
      have hchecked := verify_front s header htotal
      obtain ⟨outcome, houtcome, hsame⟩ := exists_ofVerified_front hm htotal
      generalize packetSize header.count.toNat m.wireSize = total at *
      simp only [if_neg hshort, slice_eq (Nat.zero_le _) htotal, access_bind, List.drop_zero, hchecked]
      cases hverify : Packet.verify s header (bytes.take total) with
      | error e =>
        refine ⟨.error e, rfl, fun hfits => ?_⟩
        rw [← hwhole hfits, if_neg hshort, hverify]
      | ok =>
        by_cases htrailing : total < bytes.length
        · refine ⟨.error (.trailingBytes (bytes.length - total)), ?_, fun hfits => ?_⟩
          · simp only [verdict_ok_bind, if_pos htrailing, difference_eq htotal, access_bind]
            rfl
          · rw [← hwhole hfits, if_neg hshort, hverify]
            exact (if_pos htrailing).symm
        · have hall : bytes.take total = bytes := List.take_of_length_le (Nat.not_lt.mp htrailing)
          refine ⟨outcome, ?_, fun hfits => ?_⟩
          · simp only [verdict_ok_bind, if_neg htrailing, houtcome]
          · rw [hsame hfits, ← hwhole hfits, if_neg hshort, hverify, hall]
            exact (if_neg htrailing).symm

/-- **A packet is taken off the front inside the buffer**, whatever it holds. -/
theorem exists_decodeFront (s : Schema) (typeId : UInt16) (buffer : Bytes) :
    ∃ outcome, decodeFront s typeId buffer = some outcome ∧
      (Fits s typeId → outcome = Packet.decodeFront s typeId buffer) := by
  unfold decodeFront Packet.decodeFront
  cases hm : s.message? typeId with
  | none => exact ⟨(.error (.unknownMessageType typeId), buffer), rfl, fun _ => rfl⟩
  | some m =>
    simp only [parseHeader_eq, Option.bind_eq_bind, Option.bind_some]
    cases Header.parse? buffer with
    | none => exact ⟨(.ok none, buffer), rfl, fun _ => rfl⟩
    | some header =>
      have hwhole (hfits : Fits s typeId) := hfits.packetSize_eq hm header
      dsimp only
      by_cases hshort : buffer.length < packetSize header.count.toNat m.wireSize
      · refine ⟨(.ok none, buffer), ?_, fun hfits => ?_⟩
        · rw [if_pos hshort, difference_eq (Nat.le_of_lt hshort)]
          rfl
        · rw [← hwhole hfits, if_pos hshort]
      have htotal := Nat.not_lt.mp hshort
      have hchecked := verify_front s header htotal
      obtain ⟨outcome, houtcome, hsame⟩ := exists_ofVerified_front hm htotal
      generalize packetSize header.count.toNat m.wireSize = total at *
      rw [if_neg hshort, split_eq htotal]
      simp only [Option.bind_some, hchecked]
      cases hverify : Packet.verify s header (buffer.take total) with
      | error e =>
        refine ⟨(.error e, buffer.drop total), rfl, fun hfits => ?_⟩
        rw [← hwhole hfits, if_neg hshort, hverify]
      | ok =>
        refine ⟨(outcome.map some, buffer.drop total), ?_, fun hfits => ?_⟩
        · rw [houtcome]
          rfl
        · rw [hsame hfits, ← hwhole hfits, if_neg hshort, hverify]

end Strict

end CommandLink
