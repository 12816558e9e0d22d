import CommandLink.Proofs.DriveCommand.Quantised
import CommandLink.Proofs.Packet.Acceptance

/-!
# Relayed drive commands

A relay takes the drive commands out of a packet and sends them on with the flags of the packet
(`Packet.relay`). The rates of a command are quantised when it is sent for the first time
(`DriveCommand.received`), and never again: what a relay sends is what came in.

* `encode_toRecord_eq_ok`: when a command is accepted, and as which bytes.
* `ofRecord_canonical`, `encode_received`: what is received of a command, and that it is sent as the
  same bytes.
* `encodeCommands_received`: the same for a batch, and for any number of relays.
-/

namespace CommandLink

namespace DriveCommand

variable {c : DriveCommand} {bytes : Bytes}

/-! ## One command -/

/-- What is received of a rate that is accepted. -/
def receivedRate (x : Binary32) : Binary32 :=
  match FixedPoint.encode x.widen scale with
  | .ok raw => (FixedPoint.decode raw scale).narrow
  | .error _ => x

/-- What is received of a command that is accepted. -/
def received (c : DriveCommand) : DriveCommand :=
  ⟨receivedRate c.vx, receivedRate c.omega, c.durationMs⟩

section Rate

variable {x : Binary32} {raw : Int32}

theorem receivedRate_of_encode (h : FixedPoint.encode x.widen scale = .ok raw) :
    receivedRate x = (FixedPoint.decode raw scale).narrow := by
  unfold receivedRate
  rw [h]

/-- A rate that was received is sent as the steps that it was received as. -/
theorem encode_receivedRate (h : FixedPoint.encode x.widen scale = .ok raw) :
    FixedPoint.encode (receivedRate x).widen scale = .ok raw := by
  rw [receivedRate_of_encode h]
  exact (encode_narrow_decode h).2

/-- What the wire makes of a rate that is accepted. -/
theorem canonical_rate (h : FixedPoint.encode x.widen scale = .ok raw) :
    (FieldType.fixed32 scale).canonical (.float x.widen) = .float (FixedPoint.decode raw scale) :=
  FieldType.canonical_fixed32 rfl h

/-- Steps are received as a rate. -/
theorem rate_decode (name : String) (h : FixedPoint.encode x.widen scale = .ok raw) :
    rate name (.float (FixedPoint.decode raw scale)) = .ok (receivedRate x) := by
  unfold rate
  simp only [FieldValue.asFloat?, (encode_narrow_decode h).1, receivedRate_of_encode h, ↓reduceIte]

end Rate

/-- A duration is a 64-bit integer and back. -/
theorem toInt_duration (d : UInt16) : (Int64.ofInt d.toNat).toInt = d.toNat := by
  have hlt := d.toNat_lt
  exact Int64.toInt_ofInt_of_le (by omega) (by omega)

/-- Every duration is accepted. -/
theorem encode_duration (d : UInt16) :
    FieldType.u16.encode (.int (Int64.ofInt d.toNat)) = .ok (Bytes.ofNat 2 d.toNat) := by
  have hlt := d.toNat_lt
  have hmod : ((d.toNat : Int) % 256 ^ 2).toNat = d.toNat := by omega
  unfold FieldType.encode FieldType.encodeInteger
  simp only [FieldValue.asInt?, toInt_duration, FieldType.wireSize, hmod]
  rw [if_pos (by omega)]

/-- **A command is accepted if both rates have steps**, and travels as these and its duration. -/
theorem encode_toRecord_eq_ok : message.encode c.toRecord = .ok bytes ↔
    ∃ vx omega, FixedPoint.encode c.vx.widen scale = .ok vx ∧
      FixedPoint.encode c.omega.widen scale = .ok omega ∧
      bytes = Bytes.ofNat 4 vx.toUInt32.toNat ++
        (Bytes.ofNat 4 omega.toUInt32.toNat ++ Bytes.ofNat 2 c.durationMs.toNat) := by
  constructor
  · intro h
    obtain ⟨-, hfields⟩ := Message.encode_eq_ok.mp h
    obtain ⟨_, _, h₁, hrates, rfl⟩ := writeFields_cons hfields
    obtain ⟨_, _, h₂, hrest, rfl⟩ := writeFields_cons hrates
    obtain ⟨_, _, h₃, hnil, rfl⟩ := writeFields_cons hrest
    obtain ⟨_, vx, hx, hvx, rfl⟩ := FieldType.encode_fixed32_eq_ok h₁
    obtain ⟨_, omega, hy, homega, rfl⟩ := FieldType.encode_fixed32_eq_ok h₂
    cases hx
    cases hy
    rw [encode_duration] at h₃
    cases h₃
    cases hnil
    exact ⟨vx, omega, hvx, homega, rfl⟩
  · rintro ⟨vx, omega, hvx, homega, rfl⟩
    refine Message.encode_eq_ok.mpr ⟨rfl, ?_⟩
    have h₁ := FieldType.encode_fixed32 (FieldType.finite_float (FixedPoint.encode_eq_ok hvx).1) hvx
    have h₂ := FieldType.encode_fixed32 (FieldType.finite_float (FixedPoint.encode_eq_ok homega).1)
      homega
    simp only [message, toRecord, writeFields, h₁, h₂, encode_duration, List.append_nil]

/-- What the wire makes of an accepted command. -/
theorem canonical_toRecord {vx omega : Int32}
    (hvx : FixedPoint.encode c.vx.widen scale = .ok vx)
    (homega : FixedPoint.encode c.omega.widen scale = .ok omega) :
    message.canonical c.toRecord = [.float (FixedPoint.decode vx scale),
      .float (FixedPoint.decode omega scale), .int (Int64.ofInt c.durationMs.toNat)] := by
  unfold Message.canonical
  simp only [message, toRecord, List.zipWith_cons_cons, List.zipWith_nil_left, canonical_rate hvx,
    canonical_rate homega]
  rfl

/-- Nothing of an accepted command is lost. -/
theorem lostField?_toRecord (h : message.encode c.toRecord = .ok bytes) :
    message.lostField? c.toRecord = none := by
  obtain ⟨vx, omega, hvx, homega, -⟩ := encode_toRecord_eq_ok.mp h
  unfold Message.lostField?
  simp only [message, toRecord, lostFieldOf?, canonical_rate hvx, canonical_rate homega,
    FieldValue.isFinite, isFinite_decode_scale, ↓reduceIte]
  rfl

/-- **The command that is received** has both rates narrowed and the same duration. -/
theorem ofRecord_canonical (h : message.encode c.toRecord = .ok bytes) :
    ofRecord (message.canonical c.toRecord) = .ok c.received := by
  obtain ⟨vx, omega, hvx, homega, -⟩ := encode_toRecord_eq_ok.mp h
  have hlt := c.durationMs.toNat_lt
  have hduration : duration "durationMs" (.int (Int64.ofInt c.durationMs.toNat)) =
      .ok c.durationMs := by
    unfold duration
    simp only [FieldValue.asInt?, toInt_duration]
    rw [if_pos (by omega), Int.toNat_natCast, UInt16.ofNat_toNat]
  rw [canonical_toRecord hvx homega]
  simp only [ofRecord, rate_decode _ hvx, rate_decode _ homega, hduration]
  rfl

/-- **A command that was received is sent as the bytes that it was received as.** -/
theorem encode_received (h : message.encode c.toRecord = .ok bytes) :
    message.encode c.received.toRecord = .ok bytes := by
  obtain ⟨vx, omega, hvx, homega, rfl⟩ := encode_toRecord_eq_ok.mp h
  exact encode_toRecord_eq_ok.mpr
    ⟨vx, omega, encode_receivedRate hvx, encode_receivedRate homega, rfl⟩

end DriveCommand

/-! ## A batch -/

namespace Packet

variable {s : Schema} {typeId : UInt16} {m : Message} {records : List Record} {flags : Flags}
  {bytes : Bytes}

/-- A batch of which nothing is lost is received with its flags and in its canonical form. -/
theorem decode_of_kept (hm : s.message? typeId = some m)
    (hencode : encode s typeId records flags = .ok bytes)
    (hkept : ∀ r ∈ records, m.lostField? r = none) :
    ∃ h, h.flags = flags ∧ decode s typeId bytes = .ok ⟨h, typeId, records.map m.canonical⟩ := by
  obtain ⟨_, h, body, hknown, hversion, hflags, hcount, hbody, rfl⟩ := encode_eq_ok.mp hencode
  obtain rfl := Option.some.inj (hm.symm.trans hknown)
  have hlen := length_of_encodeRecords hbody
  rw [← hcount] at hlen
  refine ⟨h, hflags, decode_eq_ok.mpr ⟨m, body, hm, rfl, hversion, hlen, ?_, rfl⟩⟩
  rw [hcount]
  exact decodeRecords_encodeRecords hbody hkept

/-- What a relay makes of a packet of drive commands: it takes the commands out and sends them on with
the same flags. -/
def relay (bytes : Bytes) : Option Bytes :=
  match decode .builtin DriveCommand.typeId bytes with
  | .error _ => none
  | .ok p =>
    match p.commands with
    | .error _ => none
    | .ok commands => (encodeCommands .builtin commands p.header.flags).toOption

/-- What comes out of so many relays, one behind the other. -/
def relays : Nat → Bytes → Option Bytes
  | 0, bytes => some bytes
  | n + 1, bytes => (relay bytes).bind (relays n)

theorem relays_of_relay (h : relay bytes = some bytes) (n : Nat) : relays n bytes = some bytes := by
  induction n with
  | zero => rfl
  | succ n ih =>
    unfold relays
    rw [h]
    exact ih

end Packet

namespace DriveCommand

open Packet

variable {commands : List DriveCommand} {flags : Flags} {bytes : Bytes}

/-- The commands of an accepted batch are accepted one by one. -/
theorem exists_encode_toRecord (hencode : encodeCommands .builtin commands flags = .ok bytes) :
    ∀ c ∈ commands, ∃ b, message.encode c.toRecord = .ok b := by
  obtain ⟨_, _, _, hknown, -, -, -, hbody, -⟩ := Packet.encode_eq_ok.mp hencode
  obtain rfl : message = _ := Option.some.inj hknown
  exact fun c hc => exists_encode_of_mem hbody (List.mem_map_of_mem hc)

/-- The commands of a received batch. -/
theorem commands_canonical {h : Header}
    (haccepted : ∀ c ∈ commands, ∃ b, message.encode c.toRecord = .ok b) :
    Packet.commands ⟨h, typeId, (commands.map toRecord).map message.canonical⟩ =
      .ok (commands.map received) := by
  unfold Packet.commands
  rw [if_pos rfl, List.map_map]
  refine (mapM_zipIdx_eq_ok DecodeError.invalidRecord).mpr ?_
  rw [List.forall₂_map_left_iff, List.forall₂_map_right_iff, List.forall₂_same]
  intro c hc
  obtain ⟨b, hb⟩ := haccepted c hc
  exact ofRecord_canonical hb

/-- **A batch that was received is sent as the packet that it was received in.** -/
theorem encodeCommands_map_received (hencode : encodeCommands .builtin commands flags = .ok bytes) :
    encodeCommands .builtin (commands.map received) flags = .ok bytes := by
  obtain ⟨m, h, body, hknown, hversion, hflags, hcount, hbody, rfl⟩ :=
    Packet.encode_eq_ok.mp hencode
  obtain rfl : message = m := Option.some.inj hknown
  obtain ⟨parts, hparts, rfl⟩ := encodeRecords_eq_ok.mp hbody
  rw [List.length_map] at hcount
  rw [List.forall₂_map_left_iff] at hparts
  refine Packet.encode_eq_ok.mpr ⟨message, h, _, hknown, hversion, hflags, ?_,
    encodeRecords_eq_ok.mpr ⟨parts, ?_, rfl⟩, rfl⟩
  · rw [List.length_map, List.length_map, hcount]
  · rw [List.forall₂_map_left_iff, List.forall₂_map_left_iff]
    exact hparts.imp fun _ _ => encode_received

/-- **Drive commands are quantised once.** A batch of drive commands that is accepted is received as
as many commands with the same durations, and these are sent as the packet that they were received in.
So it comes out of any number of relays as it went in. -/
theorem encodeCommands_received (hencode : encodeCommands .builtin commands flags = .ok bytes) :
    ∃ p received, decode .builtin typeId bytes = .ok p ∧ p.commands = .ok received ∧
      received.length = commands.length ∧
      received.map durationMs = commands.map durationMs ∧
      encodeCommands .builtin received flags = .ok bytes ∧
      ∀ n, relays n bytes = some bytes := by
  have haccepted := exists_encode_toRecord hencode
  have hkept : ∀ r ∈ commands.map toRecord, message.lostField? r = none := by
    intro r hr
    obtain ⟨c, hc, rfl⟩ := List.mem_map.mp hr
    obtain ⟨b, hb⟩ := haccepted c hc
    exact lostField?_toRecord hb
  obtain ⟨h, hflags, hdecode⟩ := decode_of_kept (m := message) rfl hencode hkept
  have hcommands := commands_canonical (h := h) haccepted
  have hagain := encodeCommands_map_received hencode
  refine ⟨_, _, hdecode, hcommands, List.length_map .., ?_, hagain, relays_of_relay ?_⟩
  · rw [List.map_map]
    rfl
  · unfold relay
    rw [hdecode]
    simp only [hcommands, hflags, hagain]
    rfl

/-- Commands with rates of all sizes: tenths and less than a step, at both sides of 1024, and close to
the end of the range. None of the rates below 1024 is a whole number of steps. -/
def paces : List DriveCommand :=
  [⟨.ofBits _ 0x3dcccccd, .ofBits _ 0xb089705f, 500⟩,
    ⟨.ofBits _ 0x447ff99a, .ofBits _ 0xc4800333, 65535⟩,
    ⟨.ofBits _ 0x48435013, .ofBits _ 0xbaa3d70a, 0⟩]

/-- Their packet. -/
def pacesPacket : Bytes :=
  [2, 4, 1, 0, 3, 0, 0, 3, 232, 0, 0, 0, 0, 1, 244, 0, 156, 60, 24, 255, 99, 188, 24, 255, 255,
    119, 53, 159, 153, 255, 255, 255, 244, 0, 0, 114, 193, 84, 27]

theorem encodeCommands_received_paces :
    encodeCommands .builtin paces .clearQueue = .ok pacesPacket ∧
      ∃ p received, decode .builtin typeId pacesPacket = .ok p ∧ p.commands = .ok received ∧
        received.length = paces.length ∧ received.map durationMs = paces.map durationMs ∧
        encodeCommands .builtin received .clearQueue = .ok pacesPacket ∧
        ∀ n, relays n pacesPacket = some pacesPacket := by
  have hencode : encodeCommands .builtin paces .clearQueue = .ok pacesPacket := by decide +kernel
  exact ⟨hencode, encodeCommands_received hencode⟩

end DriveCommand

end CommandLink
