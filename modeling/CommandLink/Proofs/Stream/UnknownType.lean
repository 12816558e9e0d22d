import CommandLink.Proofs.Packet.Streaming
import CommandLink.Proofs.Stream.Fragmentation
import CommandLink.Proofs.Stream.Ledger

/-!
# A reader that expects an unknown message type

Without a layout the length of a packet is not known, so there is nothing a reader could consume.
`Reader.readPacket` says so and leaves everything as it was, stream, buffer and counts: the caller can
put the message type right and read on. The limit on records is looked at before the message type,
though, so a buffered header that announces too many is reported and thrown away all the same.

* `run_sensible`: at the limit of the count field, mistaken calls leave no trace in any run.
* `readPacket_unregistered`: when a call is without effect, and what it does otherwise.
* `not_forall_readPacket_unregistered`: below that limit a run gets to a mistaken call that does.
-/

namespace CommandLink

namespace Reader

open Packet (Admitted)

/-! ## Runs -/

/-- The reader after these requests. -/
def run (r : Reader) (requests : List Request) : Reader :=
  requests.foldl (fun r request => (r.serve request).2) r

/-- What is answered to these requests. -/
def replies (r : Reader) : List Request → List Reply
  | [] => []
  | request :: requests => (r.serve request).1 :: (r.serve request).2.replies requests

/-- The requests without the calls for a packet of a message type that is not registered. -/
def Request.sensible (s : Schema) : UInt16 → List Request → List Request
  | _, [] => []
  | typeId, request :: requests =>
    if request = .packet ∧ s.message? typeId = none then sensible s typeId requests
    else request :: sensible s (request.typeIdAfter typeId) requests

/-- What no call changes, beside the message type that is expected. -/
structure Kept (r next : Reader) : Prop where
  schema : next.schema = r.schema
  config : next.config = r.config
  typeId : next.typeId = r.typeId

variable {r next : Reader}

theorem run_cons (r : Reader) (request : Request) (requests : List Request) :
    r.run (request :: requests) = (r.serve request).2.run requests := rfl

/-! ## One call -/

theorem Kept.trans {last : Reader} (hfirst : Kept r next) (hsecond : Kept next last) : Kept r last :=
  ⟨hsecond.schema.trans hfirst.schema, hsecond.config.trans hfirst.config,
    hsecond.typeId.trans hfirst.typeId⟩

theorem kept_fill (r : Reader) : Kept r r.fill.2 := by
  unfold fill
  split <;> exact ⟨rfl, rfl, rfl⟩

theorem kept_decodeBuffered (r : Reader) : Kept r r.decodeBuffered.2 := by
  unfold decodeBuffered
  split
  · exact ⟨rfl, rfl, rfl⟩
  · split <;> exact ⟨rfl, rfl, rfl⟩

theorem kept_readPacket (r : Reader) : Kept r r.readPacket.2 := by
  have hdecoded := kept_decodeBuffered r
  fun_induction readPacket r with
  | case1 r cause next hdecode => rwa [hdecode] at hdecoded
  | case2 r packet next hdecode => rwa [hdecode] at hdecoded
  | case3 r next hdecode cause filled hfill =>
    have hfilled := kept_fill next
    rw [hfill] at hfilled
    rw [hdecode] at hdecoded
    exact hdecoded.trans hfilled
  | case4 r next hdecode filled hfill ih =>
    have hfilled := kept_fill next
    rw [hfill] at hfilled
    rw [hdecode] at hdecoded
    exact (hdecoded.trans hfilled).trans (ih (kept_decodeBuffered filled))

theorem kept_readRaw (r : Reader) (limit : Nat) : Kept r (r.readRaw limit).2 := by
  have hfill := kept_fill r
  unfold readRaw
  split
  · exact ⟨rfl, rfl, rfl⟩
  · dsimp only
    split
    · split <;> rename_i hfilled <;> rw [hfilled] at hfill <;>
        exact ⟨hfill.schema, hfill.config, hfill.typeId⟩
    · exact ⟨rfl, rfl, rfl⟩

/-- **One request** changes the expected message type only if it asks for that. -/
theorem serve_kept (r : Reader) (request : Request) :
    Kept (r.setTypeId (request.typeIdAfter r.typeId)) (r.serve request).2 := by
  cases request with
  | packet => exact kept_readPacket r
  | raw limit => exact kept_readRaw r limit
  | expect id => exact ⟨rfl, rfl, rfl⟩
  | recount => exact ⟨rfl, rfl, rfl⟩

/-! ## Calls for a packet of an unknown message type -/

/-- **A mistaken call changes nothing** if the buffered header is admitted. -/
theorem readPacket_of_admitted (hunknown : r.schema.message? r.typeId = none)
    (hadmitted : Admitted r.config.maxRecords r.buffer) :
    r.readPacket = (.error (.decode (.unknownMessageType r.typeId)), r) := by
  rcases r.excess?_cases with ⟨hnone, -⟩ | ⟨h, hparse, hexcess, -⟩
  · apply readPacket_of_verdict
    unfold decodeBuffered
    rw [hnone]
    simp only [Packet.decodeFront_unknown hunknown]
    rfl
  · exact absurd (hadmitted h hparse) (by omega)

/-- A header that announces too many records is thrown away, whatever is expected. -/
theorem readPacket_of_not_admitted {h : Header} (hparse : Header.parse? r.buffer = some h)
    (hexcess : r.config.maxRecords < h.count.toNat) :
    r.readPacket = (.error (.packetTooLarge h.count.toNat r.config.maxRecords),
      { r with buffer := [], stats := r.stats.countError }) := by
  apply readPacket_of_excess
  simp only [excess?, hparse]
  exact if_pos hexcess

/-- At the limit of the count field every header is admitted. -/
theorem admitted_of_maxCount (hlimit : Header.maxCount ≤ r.config.maxRecords) :
    Admitted r.config.maxRecords r.buffer := by
  rcases r.excess?_cases with ⟨-, hadmitted⟩ | ⟨h, -, -, hsome⟩
  · exact hadmitted
  · rw [excess?_eq_none hlimit] at hsome
    cases hsome

/-! ## Mistaken calls in a run -/

/-- **Mistaken calls leave no trace.** Whatever a reader is asked, at the limit of the count field it
is in the same state afterwards as if no packet had been asked for while its message type was unknown,
so that it also answers in the same way from there on. -/
theorem run_sensible (hlimit : Header.maxCount ≤ r.config.maxRecords) (requests : List Request) :
    r.run requests = r.run (Request.sensible r.schema r.typeId requests) := by
  induction requests generalizing r with
  | nil => rfl
  | cons request requests ih =>
    have hkept := serve_kept r request
    have hmore := ih (hkept.config.symm ▸ hlimit)
    rw [hkept.schema, hkept.typeId] at hmore
    rw [Request.sensible]
    split
    · rename_i hmistaken
      obtain ⟨rfl, hunknown⟩ := hmistaken
      have hserved : (r.serve .packet).2 = r :=
        congrArg Prod.snd (readPacket_of_admitted hunknown (admitted_of_maxCount hlimit))
      rw [hserved] at hmore
      rw [run_cons, hserved]
      exact hmore
    · rw [run_cons, run_cons]
      exact hmore

/-! ## What a mistaken call does -/

/-- **Calls for a packet while the expected message type is not registered**, in every state of a
reader. If the buffered bytes do not begin with a header that announces too many records, and only
then, the call reports the message type and has no effect at all: nothing is read, consumed or counted,
and whatever is asked next, such as the right message type and then a packet, is answered as it would
have been without it. A header that announces too many records is reported first and takes the buffered
bytes with it. A reader at the limit of the count field never gets there, so that in no run any of the
mistaken calls leaves a trace. -/
theorem readPacket_unregistered (hunknown : r.schema.message? r.typeId = none) :
    (Admitted r.config.maxRecords r.buffer ↔
      r.readPacket = (.error (.decode (.unknownMessageType r.typeId)), r)) ∧
    (Admitted r.config.maxRecords r.buffer → ∀ later, r.replies (.packet :: later) =
      .packet (.error (.decode (.unknownMessageType r.typeId))) :: r.replies later) ∧
    (∀ h, Header.parse? r.buffer = some h → r.config.maxRecords < h.count.toNat →
      r.readPacket = (.error (.packetTooLarge h.count.toNat r.config.maxRecords),
        { r with buffer := [], stats := r.stats.countError })) ∧
    (Header.maxCount ≤ r.config.maxRecords → Admitted r.config.maxRecords r.buffer ∧
      ∀ requests, r.run requests = r.run (Request.sensible r.schema r.typeId requests)) := by
  refine ⟨⟨readPacket_of_admitted hunknown, fun hread h hparse => ?_⟩, fun hadmitted later => ?_,
    fun h => readPacket_of_not_admitted,
    fun hlimit => ⟨admitted_of_maxCount hlimit, run_sensible hlimit⟩⟩
  · by_contra hexcess
    rw [readPacket_of_not_admitted hparse (Nat.not_le.mp hexcess)] at hread
    cases hread
  · rw [replies, serve, readPacket_of_admitted hunknown hadmitted]

/-- A message type that the built-in schema does not have. -/
def strayTypeId : UInt16 := 42

/-- A reader that expects this message type and admits one record, after one byte of a stream that
delivers it before these bytes. -/
def astray (bytes : Bytes) : Reader :=
  (new (.ofPieces [0 :: bytes]) .builtin strayTypeId ⟨1, none⟩).run [.raw 1]

theorem readPacket_unregistered_astray :
    Schema.builtin.message? strayTypeId = none ∧
      (astray Packet.drivePacket).readPacket =
        (.error (.decode (.unknownMessageType strayTypeId)), astray Packet.drivePacket) ∧
      (astray Packet.drivePacket).replies [.packet, .expect DriveCommand.typeId, .packet] =
        .packet (.error (.decode (.unknownMessageType strayTypeId))) ::
          (astray Packet.drivePacket).replies [.expect DriveCommand.typeId, .packet] ∧
      (astray pairHeader.toBytes).readPacket.1 = .error (.packetTooLarge 2 1) := by
  have hunknown : Schema.builtin.message? strayTypeId = none := rfl
  have hadmitted : Admitted 1 Packet.drivePacket := by
    rintro h ⟨⟩
    decide
  obtain ⟨hsame, hlater, -⟩ := readPacket_unregistered (r := astray Packet.drivePacket) hunknown
  obtain ⟨-, -, hexcess, -⟩ := readPacket_unregistered (r := astray pairHeader.toBytes) hunknown
  exact ⟨hunknown, hsame.mp hadmitted, hlater hadmitted _,
    congrArg Prod.fst (hexcess pairHeader rfl (by decide))⟩

/-- Not every call for a packet of an unknown message type leaves the reader as it was, also of those
that a run of a new reader gets to. -/
theorem not_forall_readPacket_unregistered : ¬ ∀ (script : ReadScript) (s : Schema) (typeId : UInt16)
    (config : ChannelConfig) (requests : List Request) (r : Reader),
    r = (new script s typeId config).run requests → s.message? r.typeId = none →
      r.readPacket = (.error (.decode (.unknownMessageType r.typeId)), r) := by
  intro hall
  have hsame := hall (.ofPieces [0 :: pairHeader.toBytes]) .builtin strayTypeId ⟨1, none⟩ [.raw 1]
    (astray pairHeader.toBytes) rfl rfl
  rw [readPacket_of_not_admitted (h := pairHeader) rfl (by decide)] at hsame
  cases hsame

end Reader

end CommandLink
