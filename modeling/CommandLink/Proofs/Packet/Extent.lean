import CommandLink.Proofs.Packet.Front

/-!
# Where a packet ends

A packet tells its own length, in the count of its header. So a receiver that knows the message type
notices every byte that is missing and every byte that is too many.

* `decode_front`: a cut packet is truncated, and once its header is whole the receiver knows how many
  bytes it needs.
* `decode_extended`: bytes behind a packet are counted.
* `decode_cut_or_extended`: both for every packet that is accepted, none of which begins another one.
-/

namespace CommandLink

/-- A whole header at the front of some bytes is their header. -/
theorem Header.parse?_front {h : Header} {front back : Bytes}
    (hparse : parse? (front ++ back) = some h) (hlong : size ≤ front.length) :
    parse? front = some h := by
  cases hfront : parse? front with
  | none =>
    have := parse?_eq_none.mp hfront
    omega
  | some h' => rw [← parse?_append hfront back, hparse]

namespace Packet

variable {s : Schema} {typeId : UInt16} {m : Message} {p : Packet} {bytes front back tail : Bytes}

/-- **A cut packet is truncated**, whatever the part that is missing would have been. What is needed
is a header, and then the length that it announces. -/
theorem decode_front (hm : s.message? typeId = some m) (hwhole : Whole m.wireSize (front ++ back))
    (hback : back ≠ []) : decode s typeId front = .error (.truncated
      (if front.length < Header.size then Header.size else (front ++ back).length)
      front.length) := by
  obtain ⟨h, hparse, hlen⟩ := hwhole
  by_cases hshort : front.length < Header.size
  · rw [if_pos hshort]
    exact decode_headless hm (Header.parse?_eq_none.mpr hshort)
  · rw [if_neg hshort, hlen]
    refine decode_short hm (Header.parse?_front hparse (Nat.not_lt.mp hshort)) ?_
    rw [← hlen, List.length_append]
    exact Nat.lt_add_of_pos_right (List.length_pos_iff.mpr hback)

/-- What is accepted is one whole packet. -/
theorem whole_of_decode (hdecode : decode s typeId bytes = .ok p) :
    ∃ m, s.message? typeId = some m ∧ Whole m.wireSize bytes := by
  obtain ⟨m, body, hm, -, -, hlen, -, rfl⟩ := decode_eq_ok.mp hdecode
  exact ⟨m, hm, whole_frame hlen _⟩

/-- **Bytes behind a packet are counted**, once its checksum and its version have been verified. -/
theorem decode_extended (hdecode : decode s typeId bytes = .ok p) (htail : tail ≠ []) :
    decode s typeId (bytes ++ tail) = .error (.trailingBytes tail.length) := by
  obtain ⟨m, body, hm, -, hversion, hlen, -, rfl⟩ := decode_eq_ok.mp hdecode
  rw [decode_frame hm hlen, if_neg (not_not.mpr rfl), if_neg (not_not.mpr hversion), if_pos htail]

/-- **Every byte that is missing or too many is noticed.** Of bytes that are accepted, the first `k`
are truncated: five bytes are needed for the header, and with the header as many as there were. With
anything behind them they have that many trailing bytes. So no packet begins with another one. -/
theorem decode_cut_or_extended (hdecode : decode s typeId bytes = .ok p) :
    (∀ k < bytes.length, decode s typeId (bytes.take k) =
      .error (.truncated (if k < 5 then 5 else bytes.length) k)) ∧
    (∀ tail, tail ≠ [] →
      decode s typeId (bytes ++ tail) = .error (.trailingBytes tail.length)) ∧
    ∀ other q, decode s typeId other = .ok q → bytes <+: other → other = bytes := by
  refine ⟨fun k hk => ?_, fun tail htail => decode_extended hdecode htail, ?_⟩
  · obtain ⟨m, hm, hwhole⟩ := whole_of_decode hdecode
    have hsplit := List.take_append_drop k bytes
    have hleft : bytes.drop k ≠ [] := by
      rw [ne_eq, List.drop_eq_nil_iff]
      omega
    rw [← hsplit] at hwhole
    have hcut := decode_front hm hwhole hleft
    rwa [hsplit, List.length_take, Nat.min_eq_left hk.le] at hcut
  · rintro other q hother ⟨tail, rfl⟩
    by_contra hlonger
    have htail : tail ≠ [] := fun hnil => hlonger (hnil ▸ List.append_nil bytes)
    cases hother.symm.trans (decode_extended hdecode htail)

theorem decode_cut_or_extended_drive :
    (∃ p, decode .builtin DriveCommand.typeId drivePacket = .ok p) ∧
      decode .builtin DriveCommand.typeId (drivePacket.take 3) = .error (.truncated 5 3) ∧
      decode .builtin DriveCommand.typeId (drivePacket.take 18) = .error (.truncated 19 18) ∧
      decode .builtin DriveCommand.typeId (drivePacket ++ drivePacket) =
        .error (.trailingBytes 19) ∧
      ∀ other q, decode .builtin DriveCommand.typeId other = .ok q → drivePacket <+: other →
        other = drivePacket := by
  have haccepted : (decode .builtin DriveCommand.typeId drivePacket).isOk = true := by
    decide +kernel
  cases hdecode : decode .builtin DriveCommand.typeId drivePacket with
  | error e =>
    rw [hdecode] at haccepted
    cases haccepted
  | ok p =>
    obtain ⟨hcut, hextended, hfree⟩ := decode_cut_or_extended hdecode
    exact ⟨⟨p, rfl⟩, hcut 3 (by decide), hcut 18 (by decide), hextended drivePacket (by decide),
      hfree⟩

end Packet

end CommandLink
