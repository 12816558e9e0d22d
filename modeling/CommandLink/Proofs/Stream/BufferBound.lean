import CommandLink.Proofs.Stream.UnknownType
import Mathlib.Data.List.Chain
import Mathlib.Data.List.MinMax

/-!
# How much a reader buffers

A peer chooses what its headers announce, and a reader buffers a packet until it is complete. What it
ever holds is bounded all the same, by one byte less than the largest packet that it admits and what
one read call delivers.

* **While it waits** (`Incomplete.length_le`): an incomplete packet that is admitted is shorter than
  the largest packet, whatever its header announces.
* **During a call** (`Reader.statesDuring`): a reader fills its buffer only while it waits, or if the
  buffer is empty; nothing else makes the buffer longer (`Bounded.statesDuring`).
* `buffer_bounded`: the bound, at every point of every call.
-/

namespace CommandLink

/-- The size of the largest record of a schema. -/
def Schema.largestRecord (s : Schema) : Nat := (s.messages.map Message.wireSize).foldr max 0

theorem Schema.wireSize_le_largestRecord {s : Schema} {id : UInt16} {m : Message}
    (hm : s.message? id = some m) : m.wireSize ≤ s.largestRecord :=
  List.le_max_of_le' 0 (List.mem_map_of_mem (List.mem_of_find?_eq_some hm)) (Nat.le_refl _)

/-! ## While a packet is incomplete -/

namespace Packet

/-- **An incomplete packet that is admitted** is shorter than the largest packet. -/
theorem Incomplete.length_le {size limit : Nat} {bytes : Bytes} (hincomplete : Incomplete size bytes)
    (hadmitted : Admitted limit bytes) : bytes.length ≤ 8 + min limit 65535 * size := by
  cases hparse : Header.parse? bytes with
  | none =>
    have hshort := Header.parse?_eq_none.mp hparse
    unfold Header.size at hshort
    omega
  | some h =>
    have hshort := hincomplete h hparse
    have hcount : h.count.toNat ≤ min limit 65535 :=
      Nat.le_min.mpr ⟨hadmitted h hparse, Nat.le_of_lt_succ h.count.toNat_lt⟩
    have hrecords := Nat.mul_le_mul_right size hcount
    unfold packetLength Header.size Checksum.size at hshort
    omega

/-- Nothing is put back at the front of a buffer. -/
theorem length_decodeFront_le (s : Schema) (typeId : UInt16) (buffer : Bytes) :
    (decodeFront s typeId buffer).2.length ≤ buffer.length := by
  cases hm : s.message? typeId with
  | none => rw [decodeFront_unknown hm]
  | some m =>
    rcases incomplete_or_whole m.wireSize buffer with hincomplete | ⟨p, rest, hp, rfl⟩
    · rw [decodeFront_incomplete hm hincomplete]
    · rw [decodeFront_whole hm hp, List.length_append]
      exact Nat.le_add_left ..

end Packet

/-! ## One read call -/

theorem ReadScript.length_read_le {script rest : ReadScript} {room : Nat} {bytes : Bytes}
    (hread : script.read room = (.delivered bytes, rest)) : bytes.length ≤ room := by
  unfold read at hread
  dsimp only at hread
  split at hread <;> cases hread
  rw [List.length_take]
  exact Nat.min_le_left ..

theorem ReadScript.length_go_le {script rest : ReadScript} {room : Nat} {bytes : Bytes}
    (pending : List ReadEvent) (calls : Nat)
    (hread : readSteadily.go script room pending calls = (.delivered bytes, rest)) :
    bytes.length ≤ room := by
  fun_induction readSteadily.go script room pending calls with
  | case1 calls later ih => exact ih hread
  | case2 calls pending hother => exact length_read_le hread

namespace Reader

variable {r next : Reader}

/-- **Filling the buffer** makes it longer by what one read call delivers. -/
theorem length_fill_le (r : Reader) : r.fill.2.buffer.length ≤ r.buffer.length + 8192 := by
  unfold fill
  split
  · rename_i bytes rest hread
    have hroom := ReadScript.length_go_le _ _ hread
    unfold readSize at hroom
    rw [List.length_append]
    omega
  · exact Nat.le_add_right ..
  · exact Nat.le_add_right ..

/-- A look at the buffer does not make it longer. -/
theorem length_decodeBuffered_le (r : Reader) :
    r.decodeBuffered.2.buffer.length ≤ r.buffer.length := by
  have hfront := Packet.length_decodeFront_le r.schema r.typeId r.buffer
  unfold decodeBuffered
  split
  · exact Nat.zero_le _
  · split <;> rename_i hdecode
    · rwa [hdecode] at hfront
    · exact Nat.le_refl _
    · exact Nat.le_refl _
    · rwa [hdecode] at hfront

/-- A look at an incomplete packet changes nothing. -/
theorem eq_of_waiting (hwaiting : r.decodeBuffered = (.ok none, next)) : next = r := by
  unfold decodeBuffered at hwaiting
  split at hwaiting
  · cases hwaiting
  · split at hwaiting <;> cases hwaiting
    rfl

/-- **While a reader waits** for the rest of a packet, it has less than the largest packet. -/
theorem length_of_waiting (hwaiting : r.decodeBuffered = (.ok none, next)) :
    r.buffer.length ≤ 8 + min r.config.maxRecords 65535 * r.schema.largestRecord := by
  rcases r.excess?_cases with ⟨hnone, hadmitted⟩ | ⟨h, -, -, hsome⟩
  · cases hm : r.schema.message? r.typeId with
    | none =>
      unfold decodeBuffered at hwaiting
      simp only [hnone, Packet.decodeFront_unknown hm] at hwaiting
      cases hwaiting
    | some m =>
      rcases Packet.incomplete_or_whole m.wireSize r.buffer with
        hincomplete | ⟨p, rest, hp, hbuffer⟩
      · have hrecords := Nat.mul_le_mul_left (min r.config.maxRecords 65535)
          (Schema.wireSize_le_largestRecord hm)
        have hshort := hincomplete.length_le hadmitted
        omega
      · obtain ⟨stats, hwhole⟩ := decodeBuffered_whole hm hnone hbuffer hp
        rw [hwaiting] at hwhole
        cases hverdict : Packet.decode r.schema r.typeId p <;> rw [hverdict] at hwhole <;>
          cases hwhole
  · unfold decodeBuffered at hwaiting
    simp only [hsome] at hwaiting
    cases hwaiting

/-! ## During a call -/

/-- The states of a reader during a call for a packet: it takes one off its buffer, and while there is
none it fills the buffer and looks again. -/
def packetStates (r : Reader) : List Reader :=
  match _h : r.decodeBuffered with
  | (.error _, next) => [r, next]
  | (.ok (some _), next) => [r, next]
  | (.ok none, next) =>
    match _hf : next.fill with
    | (.error _, filled) => [r, filled]
    | (.ok (), filled) => r :: filled.packetStates
termination_by r.stream.size
decreasing_by
  have hsmaller := size_fill_lt _hf
  have hsame := stream_decodeBuffered r
  rw [_h] at hsame
  rwa [← hsame]

/-- The states of a reader during a call for raw bytes: an empty buffer is filled first. -/
def rawStates (r : Reader) (count : Nat) : List Reader :=
  r :: (if count ≠ 0 ∧ r.buffer = [] then [r.fill.2] else []) ++ [(r.readRaw count).2]

/-- The states of a reader during a call, from the one before it to the one after it. -/
def statesDuring (r : Reader) : Request → List Reader
  | .packet => r.packetStates
  | .raw count => r.rawStates count
  | request => [r, (r.serve request).2]

/-- What happens to a reader at one point of a call: it takes a packet off its buffer if there is one,
fills the buffer, hands out the front of it, or is told what to expect or to count anew. -/
inductive Change : Reader → Reader → Prop where
  | look (r : Reader) : Change r r.decodeBuffered.2
  | fill (r : Reader) : Change r r.fill.2
  | take (r : Reader) (count : Nat) : Change r { r with buffer := r.buffer.drop count }
  | expect (r : Reader) (id : UInt16) : Change r (r.setTypeId id)
  | recount (r : Reader) : Change r r.resetStats

/-- A call for a packet goes on from where the buffer has been filled. -/
theorem packetStates_of_fill {filled : Reader} (hwaiting : r.decodeBuffered = (.ok none, r))
    (hfill : r.fill = (.ok (), filled)) : r.packetStates = r :: filled.packetStates := by
  rw [packetStates]
  split <;> rename_i hlook <;> cases hwaiting.symm.trans hlook
  split <;> rename_i hfilled <;> cases hfill.symm.trans hfilled
  rfl

theorem head?_packetStates (r : Reader) : r.packetStates.head? = some r := by
  fun_cases packetStates r <;> rfl

theorem getLast?_packetStates (r : Reader) : r.packetStates.getLast? = some r.readPacket.2 := by
  fun_induction packetStates r with
  | case1 r cause next hdecode =>
    have hread : r.readPacket = (.error cause, next) := readPacket_of_verdict hdecode
    rw [hread]
    rfl
  | case2 r packet next hdecode =>
    have hread : r.readPacket = (.ok packet, next) := readPacket_of_verdict hdecode
    rw [hread]
    rfl
  | case3 r next hdecode cause filled hfill =>
    obtain rfl := eq_of_waiting hdecode
    rw [readPacket_of_decodeBuffered_none hdecode, hfill]
    rfl
  | case4 r next hdecode filled hfill ih =>
    obtain rfl := eq_of_waiting hdecode
    rw [readPacket_of_decodeBuffered_none hdecode, hfill, List.getLast?_cons, ih]
    rfl

/-- The states during a call begin with the one before it. -/
theorem head?_statesDuring (r : Reader) (request : Request) :
    (r.statesDuring request).head? = some r := by
  cases request with
  | packet => exact head?_packetStates r
  | raw limit => rfl
  | expect id => rfl
  | recount => rfl

/-- The states during a call end with the one after it. -/
theorem getLast?_statesDuring (r : Reader) (request : Request) :
    (r.statesDuring request).getLast? = some (r.serve request).2 := by
  cases request with
  | packet => exact getLast?_packetStates r
  | raw limit => exact List.getLast?_concat ..
  | expect id => rfl
  | recount => rfl

theorem isChain_packetStates (r : Reader) : r.packetStates.IsChain Change := by
  have hlooked := Change.look r
  fun_induction packetStates r with
  | case1 r cause next hdecode =>
    rw [hdecode] at hlooked
    exact List.isChain_pair.mpr hlooked
  | case2 r packet next hdecode =>
    rw [hdecode] at hlooked
    exact List.isChain_pair.mpr hlooked
  | case3 r next hdecode cause filled hfill =>
    obtain rfl := eq_of_waiting hdecode
    have hfilled := Change.fill next
    rw [hfill] at hfilled
    exact List.isChain_pair.mpr hfilled
  | case4 r next hdecode filled hfill ih =>
    obtain rfl := eq_of_waiting hdecode
    have hfilled := Change.fill next
    rw [hfill] at hfilled
    refine List.isChain_cons.mpr ⟨fun first hfirst => ?_, ih (.look filled)⟩
    rw [head?_packetStates] at hfirst
    cases hfirst
    exact hfilled

theorem isChain_rawStates (r : Reader) (count : Nat) : (r.rawStates count).IsChain Change := by
  unfold rawStates readRaw
  by_cases hzero : count = 0
  · rw [if_neg (not_and_of_not_left _ (not_not.mpr hzero)), if_pos hzero]
    exact List.isChain_pair.mpr (.take r 0)
  rw [if_neg hzero]
  by_cases hempty : r.buffer = []
  · have hfilled := Change.fill r
    rw [if_pos ⟨hzero, hempty⟩]
    dsimp only
    rw [if_pos (List.isEmpty_iff.mpr hempty)]
    refine List.isChain_cons_cons.mpr ⟨hfilled, List.isChain_pair.mpr ?_⟩
    split <;> rename_i hfill <;> rw [hfill]
    · exact .take _ count
    · exact .take _ 0
  · rw [if_neg (not_and_of_not_right _ hempty)]
    dsimp only
    rw [if_neg (mt List.isEmpty_iff.mp hempty)]
    exact List.isChain_pair.mpr (.take r count)

/-- The states during a call follow each other by one change each. -/
theorem isChain_statesDuring (r : Reader) (request : Request) :
    (r.statesDuring request).IsChain Change := by
  cases request with
  | packet => exact isChain_packetStates r
  | raw count => exact isChain_rawStates r count
  | expect id => exact List.isChain_pair.mpr (.expect r id)
  | recount => exact List.isChain_pair.mpr (.recount r)

/-! ## The bound -/

/-- A reader of this schema, at this limit, that holds at most the largest packet, less one byte, and
what one read call delivers. -/
structure Bounded (s : Schema) (limit : Nat) (r : Reader) : Prop where
  schema : r.schema = s
  maxRecords : r.config.maxRecords = limit
  length : r.buffer.length ≤ 8 + min limit 65535 * s.largestRecord + 8192

variable {s : Schema} {limit : Nat}

theorem Bounded.of_kept (hbounded : Bounded s limit r) (hkept : Kept r next)
    (hlength : next.buffer.length ≤ r.buffer.length) : Bounded s limit next where
  schema := hkept.schema.trans hbounded.schema
  maxRecords := (congrArg ChannelConfig.maxRecords hkept.config).trans hbounded.maxRecords
  length := Nat.le_trans hlength hbounded.length

theorem Bounded.decodeBuffered (hbounded : Bounded s limit r) :
    Bounded s limit r.decodeBuffered.2 :=
  hbounded.of_kept (kept_decodeBuffered r) (length_decodeBuffered_le r)

/-- A buffer that is not longer than the largest packet, less one byte, may be filled. -/
theorem Bounded.fill (hbounded : Bounded s limit r)
    (hshort : r.buffer.length ≤ 8 + min limit 65535 * s.largestRecord) :
    Bounded s limit r.fill.2 where
  schema := (kept_fill r).schema.trans hbounded.schema
  maxRecords := (congrArg ChannelConfig.maxRecords (kept_fill r).config).trans hbounded.maxRecords
  length := Nat.le_trans (length_fill_le r) (Nat.add_le_add_right hshort _)

/-- **A reader that waits** may fill its buffer. -/
theorem Bounded.fill_of_waiting (hbounded : Bounded s limit r)
    (hwaiting : r.decodeBuffered = (.ok none, next)) : Bounded s limit next.fill.2 := by
  obtain rfl := eq_of_waiting hwaiting
  have hwait := length_of_waiting hwaiting
  rw [hbounded.schema, hbounded.maxRecords] at hwait
  exact hbounded.fill hwait

/-- An empty buffer may be filled. -/
theorem Bounded.fill_of_empty (hbounded : Bounded s limit r) (hempty : r.buffer = []) :
    Bounded s limit r.fill.2 :=
  hbounded.fill (hempty ▸ Nat.zero_le _)

/-- **A call for a packet** keeps the bound all along. -/
theorem Bounded.packetStates (hbounded : Bounded s limit r) :
    ∀ state ∈ r.packetStates, Bounded s limit state := by
  have hlooked := hbounded.decodeBuffered
  fun_induction Reader.packetStates r with
  | case1 r cause next hdecode =>
    rw [hdecode] at hlooked
    exact List.forall_mem_cons.mpr ⟨hbounded, List.forall_mem_singleton.mpr hlooked⟩
  | case2 r packet next hdecode =>
    rw [hdecode] at hlooked
    exact List.forall_mem_cons.mpr ⟨hbounded, List.forall_mem_singleton.mpr hlooked⟩
  | case3 r next hdecode cause filled hfill =>
    have hfilled := hbounded.fill_of_waiting hdecode
    rw [hfill] at hfilled
    exact List.forall_mem_cons.mpr ⟨hbounded, List.forall_mem_singleton.mpr hfilled⟩
  | case4 r next hdecode filled hfill ih =>
    have hfilled := hbounded.fill_of_waiting hdecode
    rw [hfill] at hfilled
    exact List.forall_mem_cons.mpr ⟨hbounded, ih hfilled hfilled.decodeBuffered⟩

/-- **A call for raw bytes** keeps the bound. -/
theorem Bounded.readRaw (hbounded : Bounded s limit r) (count : Nat) :
    Bounded s limit (r.readRaw count).2 := by
  have hdrop {r : Reader} (hbounded : Bounded s limit r) :
      Bounded s limit { r with buffer := r.buffer.drop count } := by
    refine hbounded.of_kept ⟨rfl, rfl, rfl⟩ ?_
    rw [List.length_drop]
    exact Nat.sub_le ..
  unfold Reader.readRaw
  split
  · exact hbounded
  · dsimp only
    split
    · rename_i hempty
      have hfilled := hbounded.fill_of_empty (List.isEmpty_iff.mp hempty)
      split <;> rename_i hfill <;> rw [hfill] at hfilled
      · exact hdrop hfilled
      · exact hfilled
    · exact hdrop hbounded

theorem Bounded.rawStates (hbounded : Bounded s limit r) (count : Nat) :
    ∀ state ∈ r.rawStates count, Bounded s limit state := by
  refine List.forall_mem_append.mpr ⟨List.forall_mem_cons.mpr ⟨hbounded, ?_⟩,
    List.forall_mem_singleton.mpr (hbounded.readRaw count)⟩
  split
  · rename_i hfills
    exact List.forall_mem_singleton.mpr (hbounded.fill_of_empty hfills.2)
  · exact List.forall_mem_nil _

/-- **Any call** keeps the bound all along. -/
theorem Bounded.statesDuring (hbounded : Bounded s limit r) (request : Request) :
    ∀ state ∈ r.statesDuring request, Bounded s limit state := by
  have hexpected (typeId : UInt16) : Bounded s limit (r.setTypeId typeId) :=
    ⟨hbounded.schema, hbounded.maxRecords, hbounded.length⟩
  cases request with
  | packet => exact hbounded.packetStates
  | raw count => exact hbounded.rawStates count
  | expect id =>
    exact List.forall_mem_cons.mpr ⟨hbounded, List.forall_mem_singleton.mpr (hexpected id)⟩
  | recount =>
    exact List.forall_mem_cons.mpr ⟨hbounded, List.forall_mem_singleton.mpr
      ⟨hbounded.schema, hbounded.maxRecords, hbounded.length⟩⟩

/-- Any number of calls keep the bound. -/
theorem Bounded.run (hbounded : Bounded s limit r) (requests : List Request) :
    Bounded s limit (r.run requests) := by
  induction requests generalizing r with
  | nil => exact hbounded
  | cons request requests ih =>
    exact ih (hbounded.statesDuring request _ (List.mem_of_getLast? (getLast?_statesDuring ..)))

/-- **A reader buffers a bounded number of bytes, whatever its peer sends.** Whatever a new reader has
been asked and is asked next, on whatever stream: before the call, at every point of it and after it the
buffer holds at most the largest packet that the reader admits, less one byte, and what one read call
delivers. -/
theorem buffer_bounded {script : ReadScript} {typeId : UInt16} {config : ChannelConfig}
    {requests : List Request} (hr : (new script s typeId config).run requests = r)
    (request : Request) :
    ((r.statesDuring request).head? = some r ∧ (r.statesDuring request).IsChain Change ∧
        (r.statesDuring request).getLast? = some (r.serve request).2) ∧
      ∀ state ∈ r.statesDuring request,
        state.buffer.length ≤ 8 + min config.maxRecords 65535 * s.largestRecord + 8192 := by
  have hnew : Bounded s config.maxRecords (new script s typeId config) := ⟨rfl, rfl, Nat.zero_le _⟩
  have hbounded : Bounded s config.maxRecords r := hr ▸ hnew.run requests
  exact ⟨⟨head?_statesDuring r request, isChain_statesDuring r request,
    getLast?_statesDuring r request⟩,
    fun state hstate => (hbounded.statesDuring request state hstate).length⟩

/-- A reader of drive commands at a limit of one record, when the header of two has come in. -/
theorem buffer_bounded_pair :
    (single [pairHeader.toBytes]).fill.2 ∈ (single [pairHeader.toBytes]).statesDuring .packet ∧
      (single [pairHeader.toBytes]).fill.2.buffer.length = 5 ∧
      (single [pairHeader.toBytes]).fill.2.buffer.length ≤
        8 + min 1 65535 * Schema.builtin.largestRecord + 8192 := by
  have hwaiting : (single [pairHeader.toBytes]).decodeBuffered =
      (.ok none, single [pairHeader.toBytes]) :=
    decodeBuffered_incomplete (m := DriveCommand.message) rfl rfl Packet.incomplete_nil
  have hfill : (single [pairHeader.toBytes]).fill =
      (.ok (), (single [pairHeader.toBytes]).fill.2) := rfl
  have hmem : (single [pairHeader.toBytes]).fill.2 ∈
      (single [pairHeader.toBytes]).statesDuring .packet := by
    have hstates : (single [pairHeader.toBytes]).statesDuring .packet =
        single [pairHeader.toBytes] :: (single [pairHeader.toBytes]).fill.2.packetStates :=
      packetStates_of_fill hwaiting hfill
    rw [hstates]
    exact List.mem_cons_of_mem _ (List.mem_of_head? (head?_packetStates _))
  have hnothing : (new (.ofPieces [pairHeader.toBytes]) .builtin DriveCommand.typeId ⟨1, none⟩).run [] =
      single [pairHeader.toBytes] := rfl
  exact ⟨hmem, rfl, (buffer_bounded hnothing .packet).2 _ hmem⟩

end Reader

end CommandLink
