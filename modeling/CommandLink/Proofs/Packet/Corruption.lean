import CommandLink.Proofs.Checksum.Catalogue
import CommandLink.Proofs.Packet.RoundTrip

/-!
# Packets that were damaged on the way

What a receiver makes of the bytes of a packet that were altered without getting more or fewer. The
count decides which bytes the checksum covers, so damage to it is another matter than damage to the
rest (`decode_of_agreeOutside` and the lemmas on the count).

* `decode_burst`: damage within four consecutive bytes beside the count, on one side of the start of
  the checksum, is always reported as a checksum that does not match; a packet with a damaged count
  is never accepted.
-/

namespace CommandLink

/-- The count of a header stands in the bytes at offsets 3 and 4. -/
theorem Header.count_eq {a b : Bytes} {h h' : Header} (ha : parse? a = some h)
    (hb : parse? b = some h') (hhigh : a[3]? = b[3]?) (hlow : a[4]? = b[4]?) :
    h.count = h'.count := by
  unfold parse? at ha hb
  split at ha
  · split at hb
    · cases ha
      cases hb
      simp only [List.getElem?_cons_succ, List.getElem?_cons_zero, Option.some.injEq] at hhigh hlow
      rw [hhigh, hlow]
    · cases hb
  · cases ha

/-- Version and flags of a header stand in the bytes before its count. -/
theorem Header.front_eq {a b : Bytes} {h h' : Header} (ha : parse? a = some h)
    (hb : parse? b = some h') (htake : a.take 3 = b.take 3) :
    h.version = h'.version ∧ h.flags = h'.flags := by
  unfold parse? at ha hb
  split at ha
  · split at hb
    · cases ha
      cases hb
      simp only [List.take_succ_cons, List.cons.injEq] at htake
      obtain ⟨rfl, rfl, rfl, -⟩ := htake
      exact ⟨rfl, rfl⟩
    · cases hb
  · cases ha

namespace Packet

open Checksum (AgreeOutside)

variable {s : Schema} {typeId : UInt16} {m : Message} {h h' : Header} {body altered : Bytes}
  {carried : UInt32}

/-! ## The parts of a frame -/

theorem take_frame {n : Nat} (hn : body.length = n) :
    (frame h body carried).take (Header.size + n) = h.toBytes ++ body := by
  unfold frame
  exact List.take_left' (by rw [List.length_append, Header.length_toBytes, hn])

theorem drop_frame {n : Nat} (hn : body.length = n) :
    (frame h body carried).drop (Header.size + n) = Bytes.ofNat Checksum.size carried.toNat := by
  unfold frame
  exact List.drop_left' (by rw [List.length_append, Header.length_toBytes, hn])

theorem ofNat_carried_injective {a b : UInt32}
    (hab : Bytes.ofNat Checksum.size a.toNat = Bytes.ofNat Checksum.size b.toNat) : a = b := by
  have ha : a.toNat < 256 ^ Checksum.size := a.toNat_lt
  have hb : b.toNat < 256 ^ Checksum.size := b.toNat_lt
  have := congrArg Bytes.toNat hab
  rw [Bytes.toNat_ofNat, Bytes.toNat_ofNat, Nat.mod_eq_of_lt ha, Nat.mod_eq_of_lt hb] at this
  exact UInt32.toNat_inj.mp this

theorem exists_header (hlen : altered.length = (frame h body carried).length) :
    ∃ h', Header.parse? altered = some h' := by
  rw [length_frame] at hlen
  cases hparse : Header.parse? altered with
  | none =>
    have := Header.parse?_eq_none.mp hparse
    omega
  | some h' => exact ⟨h', rfl⟩

/-! ## Damage beside the count -/

section Beside

variable {start width : Nat}
  (hagree : AgreeOutside start width (frame h body (Checksum.compute (h.toBytes ++ body))) altered)
  (hne : altered ≠ frame h body (Checksum.compute (h.toBytes ++ body)))
  (hcount : start + width ≤ 3 ∨ 5 ≤ start)

include hagree hcount in
/-- Where the count is left alone, a frame stays a frame with as long a body. -/
theorem exists_altered_frame :
    ∃ h' body' carried', h'.count = h.count ∧ body'.length = body.length ∧
      altered = frame h' body' carried' := by
  have hlen := hagree.length.symm
  obtain ⟨h', hparse⟩ := exists_header hlen
  rw [length_frame] at hlen
  obtain ⟨body', carried', rest, hbody, rfl⟩ := exists_frame hparse (Nat.le_of_eq hlen.symm)
  have hrest : rest = [] := by
    rw [List.length_append, length_frame] at hlen
    exact List.eq_nil_of_length_eq_zero (by omega)
  rw [hrest, List.append_nil] at hparse hagree ⊢
  have horiginal := parse?_frame h body (Checksum.compute (h.toBytes ++ body)) []
  rw [List.append_nil] at horiginal
  exact ⟨h', body', carried', (Header.count_eq horiginal hparse (hagree.outside 3 (by omega))
    (hagree.outside 4 (by omega))).symm, hbody, rfl⟩

include hagree hne in
/-- A burst on one side of the start of the checksum takes the two apart. -/
theorem carried_ne_compute {body' : Bytes} {carried' : UInt32}
    (hframe : altered = frame h' body' carried') (hlen : body'.length = body.length)
    (hshort : width ≤ 4)
    (hside : start + width ≤ Header.size + body.length ∨ Header.size + body.length ≤ start) :
    carried' ≠ Checksum.compute (h'.toBytes ++ body') := by
  subst hframe
  intro hmatch
  suffices hcovered : h.toBytes ++ body = h'.toBytes ++ body' by
    refine hne ?_
    unfold frame
    rw [hcovered, hmatch]
  rcases hside with hbefore | hinside
  · by_contra hcovered
    have htrailer := hagree.drop_eq hbefore
    rw [drop_frame rfl, drop_frame hlen] at htrailer
    have hagree' := hagree.take (Header.size + body.length)
    rw [take_frame rfl, take_frame hlen] at hagree'
    exact hagree'.compute_ne hshort hcovered ((ofNat_carried_injective htrailer).trans hmatch)
  · have hcovered := hagree.take_eq hinside
    rwa [take_frame rfl, take_frame hlen] at hcovered

include hagree hne hcount in
/-- **Damage beside the count is reported as a checksum that does not match.** -/
theorem decode_of_agreeOutside (hm : s.message? typeId = some m)
    (hlen : body.length = h.count.toNat * m.wireSize) (hshort : width ≤ 4)
    (hside : start + width ≤ Header.size + body.length ∨ Header.size + body.length ≤ start) :
    ∃ carried computed, decode s typeId altered = .error (.checksumMismatch carried computed) ∧
      decodeFront s typeId altered = (.error (.checksumMismatch carried computed), []) := by
  obtain ⟨h', body', carried', hcount', hlen', hframe⟩ := exists_altered_frame hagree hcount
  have hmismatch := carried_ne_compute hagree hne hframe hlen' hshort hside
  have hsize : body'.length = h'.count.toNat * m.wireSize := by rw [hlen', hlen, hcount']
  have hdecode := decode_frame hm hsize carried' []
  have hfront := decodeFront_frame hm hsize carried' []
  rw [List.append_nil, ← hframe, if_pos hmismatch] at hdecode hfront
  exact ⟨_, _, hdecode, hfront⟩

end Beside

/-! ## Damage to the count -/

section Count

variable (hm : s.message? typeId = some m) (hlen : body.length = h.count.toNat * m.wireSize)
  (hsize : altered.length = (frame h body carried).length)
  (hparse : Header.parse? altered = some h')

include hm hlen hsize hparse in
/-- A packet that announces more records than it has is not complete. -/
theorem decode_of_count_grown (hgrown : h.count.toNat < h'.count.toNat) :
    decode s typeId altered =
        .error (.truncated (packetLength h'.count.toNat m.wireSize) altered.length) ∧
      decodeFront s typeId altered = (.ok none, altered) := by
  have hpos := (Schema.wellFormed_of_message? hm).wireSize_pos
  have hmore := Nat.mul_lt_mul_of_pos_right hgrown hpos
  have hshort : altered.length < packetLength h'.count.toNat m.wireSize := by
    rw [hsize, length_frame, hlen]
    unfold packetLength
    omega
  exact ⟨decode_short hm hparse hshort, decodeFront_short hm hparse hshort⟩

include hm hlen hsize hparse in
/-- A packet that announces fewer records than it has is a frame of these with something behind. -/
theorem exists_shorter_frame (hshrunk : h'.count.toNat < h.count.toNat) :
    ∃ body' carried' rest, body'.length = h'.count.toNat * m.wireSize ∧
      rest.length = (h.count.toNat - h'.count.toNat) * m.wireSize ∧ rest ≠ [] ∧
      altered = frame h' body' carried' ++ rest := by
  have hpos := (Schema.wellFormed_of_message? hm).wireSize_pos
  have hless := Nat.mul_lt_mul_of_pos_right hshrunk hpos
  rw [length_frame, hlen] at hsize
  obtain ⟨body', carried', rest, hbody, rfl⟩ :=
    exists_frame (n := h'.count.toNat * m.wireSize) hparse (by omega)
  rw [List.length_append, length_frame, hbody] at hsize
  have hrest : rest.length = (h.count.toNat - h'.count.toNat) * m.wireSize := by
    rw [Nat.sub_mul]
    omega
  refine ⟨body', carried', rest, hbody, hrest, ?_, rfl⟩
  rintro rfl
  rw [List.length_nil] at hsize
  omega

end Count

/-- Where only the count was altered, and it still is the same, nothing was. -/
theorem eq_of_count_eq (hagree : AgreeOutside 3 2 (frame h body carried) altered)
    (hparse : Header.parse? altered = some h') (hcount : h'.count = h.count) :
    altered = frame h body carried := by
  have horiginal := parse?_frame h body carried []
  rw [List.append_nil] at horiginal
  obtain ⟨hversion, hflags⟩ := Header.front_eq horiginal hparse (hagree.take_eq (Nat.le_refl 3))
  obtain rfl : h = h' := by
    cases h
    cases h'
    simp only at hversion hflags hcount
    rw [hversion, hflags, hcount]
  have hdrop := hagree.drop_eq (n := Header.size) (Nat.le_refl 5)
  rw [Header.eq_toBytes_append hparse, ← hdrop, ← Header.eq_toBytes_append horiginal]

/-! ## Damaged packets -/

/-- **A burst beside the count is reported as a checksum that does not match**, and never as another
version or another record, if it lies before the checksum or within it. With a damaged count a
packet is never accepted, and counts as incomplete when it announces more records than were sent.
The check is CRC-32/ISO-HDLC. -/
theorem decode_burst {records : List Record} {flags : Flags} {buffer packet : Bytes}
    (happend : append s typeId records flags buffer = (.ok (), buffer ++ packet))
    (hne : altered ≠ packet) :
    (∀ start width, AgreeOutside start width packet altered → width ≤ 4 →
      (start + width ≤ 3 ∨ 5 ≤ start) →
      (start + width + Checksum.size ≤ packet.length ∨ packet.length ≤ start + Checksum.size) →
      ∃ carried computed,
        decode s typeId altered = .error (.checksumMismatch carried computed)) ∧
    (AgreeOutside 3 2 packet altered →
      (∀ p, decode s typeId altered ≠ .ok p) ∧
      ∀ h, Header.parse? altered = some h → records.length < h.count.toNat →
        ∃ needed, decode s typeId altered = .error (.truncated needed altered.length)) ∧
    ∀ bytes, (Checksum.compute bytes).toBitVec = Checksum.isoHdlc.compute bytes := by
  obtain ⟨m, h, body, hm, -, -, hcount, hbody, hlen, hpacket⟩ := exists_frame_of_append happend
  obtain rfl := List.append_cancel_left hpacket
  refine ⟨fun start width hagree hshort hbeside hside => ?_, fun hagree => ?_,
    Checksum.compute_eq_isoHdlc⟩
  · rw [length_frame] at hside
    obtain ⟨carried, computed, hdecode, -⟩ :=
      decode_of_agreeOutside hagree hne hbeside hm hlen hshort (by omega)
    exact ⟨carried, computed, hdecode⟩
  · have hsize := hagree.length.symm
    obtain ⟨h', hparse⟩ := exists_header hsize
    have hgrown := decode_of_count_grown hm hlen hsize hparse
    constructor
    · intro p hp
      rcases Nat.lt_trichotomy h.count.toNat h'.count.toNat with hlt | heq | hgt
      · rw [(hgrown hlt).1] at hp
        cases hp
      · exact hne (eq_of_count_eq hagree hparse (UInt16.toNat_inj.mp heq).symm)
      · obtain ⟨body', carried', rest, hbody', -, hrest, rfl⟩ :=
          exists_shorter_frame hm hlen hsize hparse hgt
        rw [decode_frame hm hbody', if_pos hrest] at hp
        split at hp
        · cases hp
        · split at hp <;> cases hp
    · intro h'' hparse'' hlt
      obtain rfl : h' = h'' := Option.some.inj (hparse.symm.trans hparse'')
      exact ⟨_, (hgrown (hcount ▸ hlt)).1⟩

theorem decode_burst_drive :
    append .builtin DriveCommand.typeId driveRecords .clearQueue [] = (.ok (), [] ++ drivePacket) ∧
      drivePacket.set 7 79 ≠ drivePacket ∧ drivePacket.set 4 0 ≠ drivePacket ∧
      (∃ carried computed, decode .builtin DriveCommand.typeId (drivePacket.set 7 79) =
        .error (.checksumMismatch carried computed)) ∧
      ∀ p, decode .builtin DriveCommand.typeId (drivePacket.set 4 0) ≠ .ok p := by
  have happend : append .builtin DriveCommand.typeId driveRecords .clearQueue [] =
      (.ok (), [] ++ drivePacket) := by decide +kernel
  have hbody : drivePacket.set 7 79 ≠ drivePacket := by decide
  have hcount : drivePacket.set 4 0 ≠ drivePacket := by decide
  have hagree (i : Nat) (b : UInt8) : AgreeOutside i 1 drivePacket (drivePacket.set i b) :=
    ⟨List.length_set.symm, fun j hj => (List.getElem?_set_ne (by omega)).symm⟩
  refine ⟨happend, hbody, hcount, ?_, ?_⟩
  · exact (decode_burst happend hbody).1 7 1 (hagree 7 79) (by decide) (by decide) (by decide)
  · exact ((decode_burst happend hcount).2.1 ((hagree 4 0).widen (by decide) (by decide))).1

end Packet

end CommandLink
