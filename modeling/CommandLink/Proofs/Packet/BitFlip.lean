import CommandLink.Proofs.Packet.Corruption

/-!
# Packets with a flipped bit

One flipped bit is detected everywhere but in the count. A count with a bit less moves the checksum
into the records, so what decides there is whether the four bytes at its new place happen to be the
checksum of what is then in front of them (`EndsEarly`).

* `decode_flipBit`: a flipped bit is detected exactly when the packet does not end early. Otherwise
  the rest of the records is reported as trailing bytes, and a stream's receiver hands out the others.
* `not_forall_detected`: there are packets of drive commands that end early.
-/

namespace CommandLink

open Checksum (AgreeOutside)

/-- The bytes with one bit flipped; bits are numbered from the lowest of the first byte. -/
def Bytes.flipBit (bytes : Bytes) (i : Nat) : Bytes :=
  bytes.modify (i / 8) (· ^^^ (1 <<< UInt8.ofNat (i % 8)))

namespace Bytes

theorem agreeOutside_flipBit (bytes : Bytes) (i : Nat) :
    AgreeOutside (i / 8) 1 bytes (bytes.flipBit i) := by
  refine ⟨(List.length_modify ..).symm, fun j hj => ?_⟩
  unfold flipBit
  exact (List.getElem?_modify_ne _ _ (by omega)).symm

theorem flipBit_ne {bytes : Bytes} {i : Nat} (hi : i < 8 * bytes.length) :
    bytes.flipBit i ≠ bytes := by
  have hbyte : i / 8 < bytes.length := by omega
  have hmask : ∀ k < 8, (1 : UInt8) <<< UInt8.ofNat k ≠ 0 := by decide
  intro h
  have hflipped := congrArg (·[i / 8]?) h
  unfold flipBit at hflipped
  simp only [List.getElem?_modify_eq, List.getElem?_eq_getElem hbyte] at hflipped
  have hbits := Option.some.inj hflipped
  refine hmask (i % 8) (Nat.mod_lt _ (by decide)) ?_
  rwa [← UInt8.xor_right_inj bytes[i / 8], UInt8.xor_zero]

end Bytes

namespace Packet

/-- A receiver reports a wrong checksum or an incomplete packet and takes no packet off a stream. -/
structure Detected (s : Schema) (typeId : UInt16) (bytes : Bytes) : Prop where
  reported : (∃ carried computed,
      decode s typeId bytes = .error (.checksumMismatch carried computed)) ∨
    ∃ needed available, decode s typeId bytes = .error (.truncated needed available)
  withheld : ∀ p, (decodeFront s typeId bytes).1 ≠ .ok (some p)

/-- A whole packet of records of `size` bytes, with its own checksum, stands before more bytes. -/
structure EndsEarly (size : Nat) (bytes : Bytes) (h : Header) (body rest : Bytes) : Prop where
  length : body.length = h.count.toNat * size
  more : rest ≠ []
  eq : bytes = frame h body (Checksum.compute (h.toBytes ++ body)) ++ rest

variable {s : Schema} {typeId : UInt16} {m : Message} {h h' : Header}
  {body body' rest altered : Bytes} {carried : UInt32}

/-- What ends early is not detected. -/
theorem EndsEarly.not_detected (hearly : EndsEarly m.wireSize altered h body rest)
    (hm : s.message? typeId = some m) : ¬ Detected s typeId altered := by
  intro hdetected
  have hreported := hdetected.reported
  rw [hearly.eq, decode_frame hm hearly.length, if_neg (by simp), if_pos hearly.more] at hreported
  split at hreported
  · rcases hreported with ⟨_, _, hdecode⟩ | ⟨_, _, hdecode⟩ <;> cases hdecode
  · rcases hreported with ⟨_, _, hdecode⟩ | ⟨_, _, hdecode⟩ <;> cases hdecode

/-- A packet with a damaged count is detected or ends early. -/
theorem detected_or_endsEarly_of_count (hm : s.message? typeId = some m)
    (hlen : body.length = h.count.toNat * m.wireSize)
    (hagree : AgreeOutside 3 2 (frame h body carried) altered)
    (hne : altered ≠ frame h body carried) :
    Detected s typeId altered ∨ ∃ h' body' rest, EndsEarly m.wireSize altered h' body' rest := by
  have hsize := hagree.length.symm
  obtain ⟨h', hparse⟩ := exists_header hsize
  rcases Nat.lt_trichotomy h.count.toNat h'.count.toNat with hlt | heq | hgt
  · obtain ⟨hdecode, hfront⟩ := decode_of_count_grown hm hlen hsize hparse hlt
    exact .inl ⟨.inr ⟨_, _, hdecode⟩, fun p hp => by rw [hfront] at hp; cases hp⟩
  · exact absurd (eq_of_count_eq hagree hparse (UInt16.toNat_inj.mp heq).symm) hne
  · obtain ⟨body', carried', rest, hbody', -, hrest, hframe⟩ :=
      exists_shorter_frame hm hlen hsize hparse hgt
    by_cases hmatch : carried' = Checksum.compute (h'.toBytes ++ body')
    · exact .inr ⟨h', body', rest, hbody', hrest, by rw [hframe, hmatch]⟩
    · have hdecode := decode_frame hm hbody' carried' rest
      have hfront := decodeFront_frame hm hbody' carried' rest
      rw [← hframe, if_pos hmatch] at hdecode hfront
      exact .inl ⟨.inl ⟨_, _, hdecode⟩, fun p hp => by rw [hfront] at hp; cases hp⟩

/-- What stands before an early end is what the packet had there. -/
theorem EndsEarly.body_eq (hearly : EndsEarly m.wireSize altered h' body' rest)
    (hagree : AgreeOutside 3 2 (frame h body carried) altered)
    (hle : h'.count.toNat * m.wireSize ≤ body.length) :
    body' = body.take (h'.count.toNat * m.wireSize) := by
  have hdrop := congrArg (List.take (h'.count.toNat * m.wireSize))
    (hagree.drop_eq (n := Header.size) (Nat.le_refl 5))
  rw [hearly.eq] at hdrop
  unfold frame at hdrop
  rw [List.append_assoc, List.append_assoc, List.append_assoc,
    List.drop_left' (Header.length_toBytes h), List.drop_left' (Header.length_toBytes h'),
    List.take_left' hearly.length, List.take_append_of_le_length hle] at hdrop
  exact hdrop.symm

/-- A packet that ends early announces fewer records than it has, and the others follow. -/
theorem EndsEarly.count_lt (hearly : EndsEarly m.wireSize altered h' body' rest)
    (hlen : body.length = h.count.toNat * m.wireSize)
    (hsize : altered.length = (frame h body carried).length) :
    h'.count.toNat < h.count.toNat ∧
      rest.length = (h.count.toNat - h'.count.toNat) * m.wireSize := by
  have hmore := List.length_pos_iff.mpr hearly.more
  rw [hearly.eq, List.length_append, length_frame, length_frame, hlen, hearly.length] at hsize
  refine ⟨?_, by rw [Nat.sub_mul]; omega⟩
  by_contra hnot
  have := Nat.mul_le_mul_right m.wireSize (Nat.not_lt.mp hnot)
  omega

/-- What a receiver makes of a packet that ends early. -/
theorem EndsEarly.outcome {records : List Record}
    (hearly : EndsEarly m.wireSize altered h' body' rest)
    (hagree : AgreeOutside 3 2 (frame h body carried) altered) (hm : s.message? typeId = some m)
    (hversion : h.version = s.version) (hcount : h.count.toNat = records.length)
    (hbody : encodeRecords m records = .ok body) :
    h'.count.toNat < records.length ∧
      decode s typeId altered =
        .error (.trailingBytes ((records.length - h'.count.toNat) * m.wireSize)) ∧
      ((∀ r ∈ records.take h'.count.toNat, m.lostField? r = none) →
        decodeFront s typeId altered =
          (.ok (some ⟨h', typeId, (records.take h'.count.toNat).map m.canonical⟩), rest)) := by
  have hlen := length_of_encodeRecords hbody
  have hsize := hagree.length.symm
  obtain ⟨hfewer, hrest⟩ := hearly.count_lt (by rw [hlen, hcount]) hsize
  rw [hcount] at hfewer hrest
  have hparse : Header.parse? altered = some h' := by
    rw [hearly.eq]
    exact parse?_frame h' body' _ rest
  have horiginal := parse?_frame h body carried []
  rw [List.append_nil] at horiginal
  have hversion' : h'.version = s.version :=
    (Header.front_eq horiginal hparse (hagree.take_eq (Nat.le_refl 3))).1 ▸ hversion
  refine ⟨hfewer, ?_, fun hkept => ?_⟩
  · rw [hearly.eq, decode_frame hm hearly.length, if_neg (by simp), if_neg (by simp [hversion']),
      if_pos hearly.more, hrest]
  · have hfront := encodeRecords_take hbody (Nat.le_of_lt hfewer)
    have hle := Nat.mul_le_mul_right m.wireSize (Nat.le_of_lt hfewer)
    rw [← hearly.body_eq hagree (by omega)] at hfront
    have hrecords := decodeRecords_encodeRecords hfront hkept
    rw [List.length_take, Nat.min_eq_left (Nat.le_of_lt hfewer)] at hrecords
    rw [hearly.eq, decodeFront_frame hm hearly.length, if_neg (by simp),
      if_neg (by simp [hversion']), hrecords]
    rfl

/-- **A flipped bit is detected exactly when the packet does not end early**, which only a bit of
the count can bring about. A packet that ends early is reported as one with trailing bytes, and the
records before its end are taken off a stream as if they were all that was sent. -/
theorem decode_flipBit {records : List Record} {flags : Flags} {packet : Bytes} {i : Nat}
    (happend : append s typeId records flags [] = (.ok (), packet)) (hi : i < 8 * packet.length) :
    ∃ m, s.message? typeId = some m ∧
      (Detected s typeId (packet.flipBit i) ↔
        ¬ ∃ h body rest, EndsEarly m.wireSize (packet.flipBit i) h body rest) ∧
      ∀ h body rest, EndsEarly m.wireSize (packet.flipBit i) h body rest →
        24 ≤ i ∧ i < 40 ∧ h.count.toNat < records.length ∧
        decode s typeId (packet.flipBit i) =
          .error (.trailingBytes ((records.length - h.count.toNat) * m.wireSize)) ∧
        ((∀ r ∈ records.take h.count.toNat, m.lostField? r = none) →
          decodeFront s typeId (packet.flipBit i) =
            (.ok (some ⟨h, typeId, (records.take h.count.toNat).map m.canonical⟩), rest)) := by
  obtain ⟨m, h, body, hm, hversion, -, hcount, hbody, hlen, rfl⟩ := exists_frame_of_append happend
  rw [List.nil_append] at hi ⊢
  have hagree := Bytes.agreeOutside_flipBit (frame h body (Checksum.compute (h.toBytes ++ body))) i
  have hne := Bytes.flipBit_ne hi
  generalize (frame h body (Checksum.compute (h.toBytes ++ body))).flipBit i = altered
    at hagree hne ⊢
  have hbeside (hplace : i < 24 ∨ 40 ≤ i) : Detected s typeId altered := by
    obtain ⟨carried, computed, hdecode, hfront⟩ :=
      decode_of_agreeOutside hagree hne (by omega) hm hlen (by decide) (by omega)
    exact ⟨.inl ⟨carried, computed, hdecode⟩, fun p hp => by rw [hfront] at hp; cases hp⟩
  have hwithin (hplace : ¬(i < 24 ∨ 40 ≤ i)) :
      AgreeOutside 3 2 (frame h body (Checksum.compute (h.toBytes ++ body))) altered :=
    hagree.widen (by omega) (by omega)
  refine ⟨m, hm, ⟨fun hdetected ⟨_, _, _, hearly⟩ => hearly.not_detected hm hdetected,
    fun hnot => ?_⟩, fun h' body' rest hearly => ?_⟩
  · by_cases hplace : i < 24 ∨ 40 ≤ i
    · exact hbeside hplace
    · exact (detected_or_endsEarly_of_count hm hlen (hwithin hplace) hne).resolve_right hnot
  · have hplace : ¬(i < 24 ∨ 40 ≤ i) := fun hplace => hearly.not_detected hm (hbeside hplace)
    exact ⟨by omega, by omega, hearly.outcome (hwithin hplace) hm hversion hcount hbody⟩

/-- One drive command whose velocity travels as the checksum of a header that announces no records. -/
def earlyRecords : List Record :=
  [[.float (Binary.ofBits .binary64 0x40F5183F8E219653), .int 0, .int 0]]

/-- Its packet. -/
def earlyPacket : Bytes :=
  [2, 4, 0, 0, 1, 51, 128, 51, 42, 0, 0, 0, 0, 0, 0, 34, 105, 233, 149]

theorem decode_flipBit_drive :
    append .builtin DriveCommand.typeId earlyRecords .none [] = (.ok (), earlyPacket) ∧
    Detected .builtin DriveCommand.typeId (earlyPacket.flipBit 0) ∧
    decode .builtin DriveCommand.typeId (earlyPacket.flipBit 32) = .error (.trailingBytes 10) ∧
    decodeFront .builtin DriveCommand.typeId (earlyPacket.flipBit 32) =
      (.ok (some ⟨⟨.current, .none, 0⟩, DriveCommand.typeId, []⟩), earlyPacket.drop 9) := by
  have happend : append .builtin DriveCommand.typeId earlyRecords .none [] =
      (.ok (), earlyPacket) := by decide +kernel
  refine ⟨happend, ?_, ?_⟩
  · obtain ⟨m, -, hdetected, hearly⟩ := decode_flipBit (i := 0) happend (by decide)
    refine hdetected.mpr ?_
    rintro ⟨h, body, rest, hends⟩
    exact absurd (hearly h body rest hends).1 (by decide)
  · obtain ⟨m, hm, -, hearly⟩ := decode_flipBit (i := 32) happend (by decide)
    obtain rfl : m = DriveCommand.message := (Option.some.inj hm).symm
    obtain ⟨-, -, -, hdecode, hfront⟩ := hearly ⟨.current, .none, 0⟩ [] (earlyPacket.drop 9)
      ⟨by decide, by decide, by decide +kernel⟩
    exact ⟨hdecode, hfront nofun⟩

/-- Not every flipped bit of every packet is detected. -/
theorem not_forall_detected :
    ¬ ∀ (s : Schema) (typeId : UInt16) (records : List Record) (flags : Flags) (packet : Bytes)
      (i : Nat), append s typeId records flags [] = (.ok (), packet) → i < 8 * packet.length →
        Detected s typeId (packet.flipBit i) := by
  intro hall
  have hdetected := hall .builtin DriveCommand.typeId earlyRecords .none earlyPacket 32
    (by decide +kernel) (by decide)
  have hdecode : decode .builtin DriveCommand.typeId (earlyPacket.flipBit 32) =
      .error (.trailingBytes 10) := by decide +kernel
  have hreported := hdetected.reported
  rw [hdecode] at hreported
  rcases hreported with ⟨_, _, h⟩ | ⟨_, _, h⟩ <;> cases h

end Packet

end CommandLink
