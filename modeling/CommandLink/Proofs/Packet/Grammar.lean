import CommandLink.Proofs.Packet.Corruption

/-!
# The grammar of packets

What a receiver accepts and why it refuses anything else, said on the bytes.

* **The grammar** (`Spells`): version, flags, count, so many chunks of the size of a record, and the
  checksum of all that.
* **The checks** (`Check`): seven conditions on the bytes, each said on its own and each with its
  error (`Check.Fails`); `of_fails_frame` says what a check that fails means for bytes that hold what
  their header announces.
* `decode_grammar`: a receiver accepts exactly the grammar, and refuses other bytes with the error of
  the first check that fails.
-/

namespace CommandLink

namespace Packet

/-- The bytes that are a packet: the schema's version, the flags, the number of records in two bytes,
as many chunks as that, each the bytes of a record, and in four bytes the checksum of everything
before it. -/
inductive Spells (s : Schema) (typeId : UInt16) : Packet → Bytes → Prop where
  | packet {m : Message} {flags : Flags} {count : UInt16} {chunks : List Bytes}
      {records : List Record} {signed : Bytes} (known : s.message? typeId = some m)
      (number : chunks.length = count.toNat) (width : ∀ c ∈ chunks, c.length = m.wireSize)
      (decoded : List.Forall₂ (fun c r => m.decode c = .ok r) chunks records)
      (front : signed = [s.version.major, s.version.minor, flags.bits] ++
        Bytes.ofNat 2 count.toNat ++ chunks.flatten) :
      Spells s typeId ⟨⟨s.version, flags, count⟩, typeId, records⟩
        (signed ++ Bytes.ofNat 4 (Checksum.compute signed).toNat)

/-- What a receiver checks, in this order. -/
inductive Check where
  | messageType
  | header
  | length
  | checksum
  | version
  | rest
  | records
deriving DecidableEq, Repr

/-- The place of a check in the order. -/
def Check.rank : Check → Nat
  | messageType => 0
  | header => 1
  | length => 2
  | checksum => 3
  | version => 4
  | rest => 5
  | records => 6

/-- A check fails on these bytes, and with this error. -/
inductive Check.Fails (s : Schema) (typeId : UInt16) (bytes : Bytes) :
    Check → DecodeError → Prop where
  | messageType (unknown : s.message? typeId = none) :
      Fails s typeId bytes .messageType (.unknownMessageType typeId)
  | header (short : bytes.length < 5) : Fails s typeId bytes .header (.truncated 5 bytes.length)
  | length {m : Message} {h : Header} {rest : Bytes} (known : s.message? typeId = some m)
      (parts : bytes = h.toBytes ++ rest)
      (short : bytes.length < 9 + h.count.toNat * m.wireSize) :
      Fails s typeId bytes .length (.truncated (9 + h.count.toNat * m.wireSize) bytes.length)
  | checksum {m : Message} {h : Header} {body rest : Bytes} {carried : UInt32}
      (known : s.message? typeId = some m) (size : body.length = h.count.toNat * m.wireSize)
      (parts : bytes = h.toBytes ++ body ++ Bytes.ofNat 4 carried.toNat ++ rest)
      (other : carried ≠ Checksum.compute (h.toBytes ++ body)) :
      Fails s typeId bytes .checksum
        (.checksumMismatch carried (Checksum.compute (h.toBytes ++ body)))
  | version {h : Header} {rest : Bytes} (parts : bytes = h.toBytes ++ rest)
      (other : h.version ≠ s.version) :
      Fails s typeId bytes .version (.unsupportedVersion h.version s.version)
  | rest {m : Message} {h : Header} {rest : Bytes} (known : s.message? typeId = some m)
      (parts : bytes = h.toBytes ++ rest)
      (long : 9 + h.count.toNat * m.wireSize < bytes.length) :
      Fails s typeId bytes .rest
        (.trailingBytes (bytes.length - (9 + h.count.toNat * m.wireSize)))
  | records {m : Message} {h : Header} {chunks : List Bytes} {rest c : Bytes} {i : Nat}
      {reason : RecordError} (known : s.message? typeId = some m)
      (parts : bytes = h.toBytes ++ chunks.flatten ++ rest)
      (number : chunks.length = h.count.toNat) (width : ∀ c ∈ chunks, c.length = m.wireSize)
      (chunk : chunks[i]? = some c) (refused : m.decode c = .error reason)
      (first : ∀ j c, j < i → chunks[j]? = some c → ∃ r, m.decode c = .ok r) :
      Fails s typeId bytes .records (.invalidRecord i reason)

/-- None of the first `k` checks fails. -/
def Passes (s : Schema) (typeId : UInt16) (bytes : Bytes) (k : Nat) : Prop :=
  ∀ c e, Check.rank c < k → ¬ c.Fails s typeId bytes e

/-- The error of the first check that fails. -/
def FirstFailure (s : Schema) (typeId : UInt16) (bytes : Bytes) (e : DecodeError) : Prop :=
  ∃ c : Check, c.Fails s typeId bytes e ∧ Passes s typeId bytes c.rank

variable {s : Schema} {typeId : UInt16} {m : Message} {h : Header} {body rest bytes : Bytes}
  {carried : UInt32} {c : Check} {e : DecodeError}

/-! ## Parts of the bytes -/

/-- Bytes begin with one header. -/
theorem toBytes_append_inj {h' : Header} {tail tail' : Bytes}
    (heq : h.toBytes ++ tail = h'.toBytes ++ tail') : h = h' ∧ tail = tail' := by
  have hparse := congrArg Header.parse? heq
  rw [Header.parse?_toBytes, Header.parse?_toBytes] at hparse
  cases hparse
  exact ⟨rfl, List.append_cancel_left heq⟩

theorem length_flatten_of_width {chunks : List Bytes} {size : Nat}
    (hwidth : ∀ c ∈ chunks, c.length = size) :
    chunks.flatten.length = chunks.length * size := by
  induction chunks with
  | nil => exact (Nat.zero_mul _).symm
  | cons c chunks ih =>
    obtain ⟨hc, hwidth⟩ := List.forall_mem_cons.mp hwidth
    rw [List.flatten_cons, List.length_append, hc, ih hwidth, List.length_cons, Nat.succ_mul,
      Nat.add_comm]

/-- A body of chunks of one size is cut into these chunks. -/
theorem pieces_flatten_eq {chunks : List Bytes} {count size : Nat} (hnumber : chunks.length = count)
    (hwidth : ∀ c ∈ chunks, c.length = size) : pieces size count chunks.flatten = chunks := by
  have hcut := pieces_flatten hwidth []
  rwa [List.append_nil, hnumber] at hcut

theorem frame_append (h : Header) (body : Bytes) (carried : UInt32) (rest : Bytes) :
    frame h body carried ++ rest =
      h.toBytes ++ (body ++ (Bytes.ofNat Checksum.size carried.toNat ++ rest)) := by
  unfold frame
  simp only [List.append_assoc]

/-- A frame has one body and one carried checksum. -/
theorem frame_append_inj {h' : Header} {body' rest' : Bytes} {carried' : UInt32}
    (hlen : body.length = h.count.toNat * m.wireSize)
    (hlen' : body'.length = h'.count.toNat * m.wireSize)
    (heq : frame h body carried ++ rest = frame h' body' carried' ++ rest') :
    h = h' ∧ body = body' ∧ carried = carried' ∧ rest = rest' := by
  rw [frame_append, frame_append] at heq
  obtain ⟨rfl, htail⟩ := toBytes_append_inj heq
  obtain ⟨rfl, htrailer⟩ := List.append_inj htail (hlen.trans hlen'.symm)
  obtain ⟨hcarried, rfl⟩ := List.append_inj htrailer (by simp)
  exact ⟨rfl, rfl, ofNat_carried_injective hcarried, rfl⟩

/-! ## The checks on a frame -/

section Frame

variable (hm : s.message? typeId = some m) (hlen : body.length = h.count.toNat * m.wireSize)

include hlen in
theorem length_frame_append (carried : UInt32) (rest : Bytes) :
    (frame h body carried ++ rest).length = 9 + h.count.toNat * m.wireSize + rest.length := by
  rw [List.length_append, length_frame, hlen]
  simp only [Header.size, Checksum.size]
  omega

include hm hlen

/-- What fails on bytes that hold what their header announces. -/
theorem of_fails_frame (hfails : c.Fails s typeId (frame h body carried ++ rest) e) :
    match c with
      | .messageType | .header | .length => False
      | .checksum => carried ≠ Checksum.compute (h.toBytes ++ body) ∧
          e = .checksumMismatch carried (Checksum.compute (h.toBytes ++ body))
      | .version => h.version ≠ s.version ∧ e = .unsupportedVersion h.version s.version
      | .rest => rest ≠ [] ∧ e = .trailingBytes rest.length
      | .records => decodeRecords m h.count.toNat body = .error e := by
  have hsize := length_frame_append hlen carried rest
  cases hfails with
  | messageType unknown =>
    rw [hm] at unknown
    cases unknown
  | header short => omega
  | @length m' h' rest' known parts short =>
    obtain rfl : m = m' := Option.some.inj (hm.symm.trans known)
    obtain ⟨rfl, -⟩ := toBytes_append_inj ((frame_append ..).symm.trans parts)
    omega
  | @checksum m' h' body' rest' carried' known size parts other =>
    obtain rfl : m = m' := Option.some.inj (hm.symm.trans known)
    obtain ⟨rfl, rfl, rfl, -⟩ := frame_append_inj hlen size parts
    exact ⟨other, rfl⟩
  | @version h' rest' parts other =>
    obtain ⟨rfl, -⟩ := toBytes_append_inj ((frame_append ..).symm.trans parts)
    exact ⟨other, rfl⟩
  | @rest m' h' rest' known parts long =>
    obtain rfl : m = m' := Option.some.inj (hm.symm.trans known)
    obtain ⟨rfl, -⟩ := toBytes_append_inj ((frame_append ..).symm.trans parts)
    rw [hsize] at long
    refine ⟨List.ne_nil_of_length_pos (by omega), ?_⟩
    rw [hsize, Nat.add_sub_cancel_left]
  | @records m' h' chunks rest' c i reason known parts number width chunk refused first =>
    obtain rfl : m = m' := Option.some.inj (hm.symm.trans known)
    rw [frame_append, List.append_assoc] at parts
    obtain ⟨rfl, htail⟩ := toBytes_append_inj parts
    have hflat := length_flatten_of_width width
    rw [number, ← hlen] at hflat
    obtain ⟨rfl, -⟩ := List.append_inj htail hflat.symm
    refine decodeRecords_eq_error.mpr ?_
    rw [pieces_flatten_eq number width]
    exact ⟨i, c, reason, chunk, refused, rfl, first⟩

theorem fails_checksum (hcrc : carried ≠ Checksum.compute (h.toBytes ++ body)) (rest : Bytes) :
    Check.Fails s typeId (frame h body carried ++ rest) .checksum
      (.checksumMismatch carried (Checksum.compute (h.toBytes ++ body))) :=
  .checksum hm hlen rfl hcrc

omit hm hlen in
theorem fails_version (hversion : h.version ≠ s.version) :
    Check.Fails s typeId (frame h body carried ++ rest) .version
      (.unsupportedVersion h.version s.version) :=
  .version (frame_append ..) hversion

theorem fails_rest (hrest : rest ≠ []) :
    Check.Fails s typeId (frame h body carried ++ rest) .rest (.trailingBytes rest.length) := by
  have hsize := length_frame_append hlen carried rest
  have hpos := List.length_pos_iff.mpr hrest
  have hextra : (frame h body carried ++ rest).length - (9 + h.count.toNat * m.wireSize) =
      rest.length := by omega
  rw [← hextra]
  exact .rest hm (frame_append ..) (by omega)

/-- A body that is refused is refused for the first of its chunks that is. -/
theorem fails_records (hrecords : decodeRecords m h.count.toNat body = .error e) :
    Check.Fails s typeId (frame h body carried ++ rest) .records e := by
  obtain ⟨i, piece, reason, hpiece, hrefused, rfl, hfirst⟩ := decodeRecords_eq_error.mp hrecords
  have hle := Nat.le_of_eq hlen.symm
  have hparts : frame h body carried ++ rest = h.toBytes ++
      (pieces m.wireSize h.count.toNat body).flatten ++
        (Bytes.ofNat Checksum.size carried.toNat ++ rest) := by
    rw [flatten_pieces hle, ← hlen, List.take_length, frame_append, List.append_assoc]
  exact .records hm hparts (length_pieces ..) (length_of_mem_pieces hle) hpiece hrefused hfirst

end Frame

/-! ## The first check that fails -/

theorem Check.rank_injective {c c' : Check} (hrank : c.rank = c'.rank) : c = c' := by
  cases c <;> cases c' <;> first | rfl | cases hrank

theorem Passes.next (hpasses : Passes s typeId bytes c.rank)
    (hpass : ∀ e, ¬ c.Fails s typeId bytes e) : Passes s typeId bytes (c.rank + 1) := by
  intro c' e hrank hfails
  rcases Nat.lt_succ_iff_lt_or_eq.mp hrank with hlt | heq
  · exact hpasses c' e hlt hfails
  · cases Check.rank_injective heq
    exact hpass e hfails

/-- A receiver that reports a check, when those before it pass, reports the first failure. -/
theorem decode_eq_error_iff_of {e' : DecodeError} (hdecode : decode s typeId bytes = .error e)
    (hpasses : Passes s typeId bytes c.rank) (hfails : c.Fails s typeId bytes e)
    (hsole : ∀ e', c.Fails s typeId bytes e' → e' = e) :
    decode s typeId bytes = .error e' ↔ FirstFailure s typeId bytes e' := by
  rw [hdecode]
  constructor
  · intro heq
    cases heq
    exact ⟨c, hfails, hpasses⟩
  · rintro ⟨c', hfails', hpasses'⟩
    have hrank : c'.rank = c.rank := by
      apply Nat.le_antisymm
      · exact Nat.not_lt.mp fun hlt => hpasses' c e hlt hfails
      · exact Nat.not_lt.mp fun hlt => hpasses c' e' hlt hfails'
    cases Check.rank_injective hrank
    rw [hsole e' hfails']

/-- A known message type is the first check. -/
theorem passes_messageType (hm : s.message? typeId = some m) (bytes : Bytes) :
    Passes s typeId bytes Check.header.rank := by
  refine Passes.next (c := .messageType) (fun c e hrank => absurd hrank (Nat.not_lt_zero _)) ?_
  intro e hfails
  cases hfails with
  | messageType unknown =>
    rw [hm] at unknown
    cases unknown

/-- A whole header is the second check. -/
theorem passes_header (hm : s.message? typeId = some m) (hparse : Header.parse? bytes = some h) :
    Passes s typeId bytes Check.length.rank := by
  refine (passes_messageType hm bytes).next fun e hfails => ?_
  cases hfails with
  | header short =>
    have hnone : Header.parse? bytes = none := Header.parse?_eq_none.mpr short
    rw [hparse] at hnone
    cases hnone

/-- **Bytes that hold what their header announces** are refused for the first check that fails. -/
theorem decode_frame_eq_error_iff (hm : s.message? typeId = some m)
    (hlen : body.length = h.count.toNat * m.wireSize) :
    decode s typeId (frame h body carried ++ rest) = .error e ↔
      FirstFailure s typeId (frame h body carried ++ rest) e := by
  have hdecode := decode_frame hm hlen carried rest
  have honly {c : Check} {e : DecodeError}
      (hf : c.Fails s typeId (frame h body carried ++ rest) e) := of_fails_frame hm hlen hf
  have hlength : Passes s typeId (frame h body carried ++ rest) Check.checksum.rank :=
    (passes_header hm (parse?_frame ..)).next fun e hf => honly hf
  by_cases hcrc : carried ≠ Checksum.compute (h.toBytes ++ body)
  · rw [if_pos hcrc] at hdecode
    exact decode_eq_error_iff_of hdecode hlength (fails_checksum hm hlen hcrc rest)
      fun e' hf => (honly hf).2
  have hchecksum : Passes s typeId (frame h body carried ++ rest) Check.version.rank :=
    hlength.next fun e hf => hcrc (honly hf).1
  rw [if_neg hcrc] at hdecode
  by_cases hversion : h.version ≠ s.version
  · rw [if_pos hversion] at hdecode
    exact decode_eq_error_iff_of hdecode hchecksum (fails_version hversion) fun e' hf => (honly hf).2
  have hcurrent : Passes s typeId (frame h body carried ++ rest) Check.rest.rank :=
    hchecksum.next fun e hf => hversion (honly hf).1
  rw [if_neg hversion] at hdecode
  by_cases hrest : rest ≠ []
  · rw [if_pos hrest] at hdecode
    exact decode_eq_error_iff_of hdecode hcurrent (fails_rest hm hlen hrest) fun e' hf => (honly hf).2
  have hended : Passes s typeId (frame h body carried ++ rest) Check.records.rank :=
    hcurrent.next fun e hf => hrest (honly hf).1
  rw [if_neg hrest] at hdecode
  cases hrecords : decodeRecords m h.count.toNat body with
  | error cause =>
    rw [hrecords] at hdecode
    exact decode_eq_error_iff_of hdecode hended (fails_records hm hlen hrecords)
      fun e' hf => Except.error.inj ((honly hf).symm.trans hrecords)
  | ok records =>
    have hall : Passes s typeId (frame h body carried ++ rest) (Check.records.rank + 1) :=
      hended.next fun e hf => by cases hrecords.symm.trans (honly hf)
    rw [hrecords] at hdecode
    rw [hdecode]
    refine ⟨nofun, fun ⟨c, hfails, _⟩ => ?_⟩
    exact absurd hfails (hall c e (by cases c <;> decide))

/-- **A receiver refuses bytes with the error of the first check that fails.** -/
theorem decode_eq_error_iff : decode s typeId bytes = .error e ↔ FirstFailure s typeId bytes e := by
  cases hm : s.message? typeId with
  | none =>
    have hdecode : decode s typeId bytes = .error (.unknownMessageType typeId) := by
      unfold decode
      simp only [hm]
    refine decode_eq_error_iff_of hdecode ?_ (.messageType hm) fun e' hf => ?_
    · exact fun c e hrank => absurd hrank (Nat.not_lt_zero _)
    · cases hf
      rfl
  | some m =>
    rcases headless_or_short_or_frame m.wireSize bytes with
      hnone | ⟨h, hparse, hshort⟩ | ⟨h, body, carried, rest, hlen, rfl⟩
    · refine decode_eq_error_iff_of (decode_headless hm hnone) (passes_messageType hm bytes)
        (.header (Header.parse?_eq_none.mp hnone)) fun e' hf => ?_
      cases hf
      rfl
    · have htotal : packetLength h.count.toNat m.wireSize = 9 + h.count.toNat * m.wireSize := by
        unfold packetLength
        simp only [Header.size, Checksum.size]
        omega
      have hdecode := decode_short hm hparse hshort
      rw [htotal] at hdecode hshort
      refine decode_eq_error_iff_of hdecode (passes_header hm hparse)
        (.length hm (Header.eq_toBytes_append hparse) hshort) fun e' hf => ?_
      cases hf with
      | length known parts short =>
        obtain rfl := Option.some.inj (hm.symm.trans known)
        rw [parts, Header.parse?_toBytes] at hparse
        cases hparse
        rfl
    · exact decode_frame_eq_error_iff hm hlen

/-- **A receiver accepts what the grammar spells.** -/
theorem decode_eq_ok_iff {p : Packet} : decode s typeId bytes = .ok p ↔ Spells s typeId p bytes := by
  rw [decode_eq_ok]
  constructor
  · rintro ⟨m, body, hm, htype, hversion, hlen, hrecords, rfl⟩
    obtain ⟨⟨version, flags, count⟩, id, records⟩ := p
    simp only at htype hversion hlen hrecords
    subst htype hversion
    have hle := Nat.le_of_eq hlen.symm
    have hjoin : (pieces m.wireSize count.toNat body).flatten = body := by
      rw [flatten_pieces hle, ← hlen, List.take_length]
    exact .packet hm (length_pieces ..) (length_of_mem_pieces hle) (decodeRecords_eq_ok.mp hrecords)
      (congrArg (Header.toBytes ⟨s.version, flags, count⟩ ++ ·) hjoin.symm)
  · rintro ⟨hm, hnumber, hwidth, hdecoded, rfl⟩
    refine ⟨_, _, hm, rfl, rfl, ?_, ?_, rfl⟩
    · rw [length_flatten_of_width hwidth, hnumber]
    · rw [decodeRecords_eq_ok, pieces_flatten_eq hnumber hwidth]
      exact hdecoded

/-- **A receiver accepts exactly the grammar**: the schema's version, the flags, a count, so many
chunks each of which is a record, at least one byte long, and the checksum of all that; it hands out
these records. It refuses any other bytes with the error of the first check that fails: the message
type, the header, the length, the checksum, the version, what follows, and the first record that is
refused. -/
theorem decode_grammar (s : Schema) (typeId : UInt16) (bytes : Bytes) :
    (∀ p, decode s typeId bytes = .ok p ↔ Spells s typeId p bytes) ∧
      (∀ e, decode s typeId bytes = .error e ↔ FirstFailure s typeId bytes e) ∧
      ∀ m, s.message? typeId = some m → 0 < m.wireSize :=
  ⟨fun _ => decode_eq_ok_iff, fun _ => decode_eq_error_iff,
    fun _ hm => (Schema.wellFormed_of_message? hm).wireSize_pos⟩

end Packet

end CommandLink
