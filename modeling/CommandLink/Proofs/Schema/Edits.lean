import CommandLink.Proofs.Checksum.Catalogue
import CommandLink.Proofs.Schema.Canonical

/-!
# Small edits of a schema

An edit that replaces at most four consecutive canonical bytes (`Bytes.RunReplaced`) is seen by the
checksum wherever it stands. Which edits do so is read off the nesting of the canonical bytes.

* `Description.KeepsPlace`, `Description.exists_sorted_split`: an edited message type that keeps its
  place among the ids is hashed in place of the former one.
* `Field.SmallEdit`, `Message.SmallEdit`, `Description.SmallEdit`: the edits of a field, of a message
  type and of a description at a version.
* `Description.hash_ne_of_smallEdit`: every one of them changes the hash.
-/

namespace CommandLink

/-! ## Runs of bytes -/

/-- The second byte string is the first with a run of at most four consecutive bytes replaced by as many
different bytes. -/
def Bytes.RunReplaced (a b : Bytes) : Prop :=
  ∃ front run run' back, a = front ++ run ++ back ∧ b = front ++ run' ++ back ∧
    run.length = run'.length ∧ run.length ≤ 4 ∧ run ≠ run'

namespace Bytes.RunReplaced

variable {a b : Bytes}

theorem of_ne (hlen : a.length = b.length) (hshort : a.length ≤ 4) (hne : a ≠ b) :
    RunReplaced a b :=
  ⟨[], a, b, [], by simp, by simp, hlen, hshort, hne⟩

theorem length_eq (h : RunReplaced a b) : a.length = b.length := by
  obtain ⟨front, run, run', back, rfl, rfl, hlen, -, -⟩ := h
  simp [hlen]

/-- A run is replaced also in anything that the bytes are part of. -/
theorem between (h : RunReplaced a b) (before after : Bytes) :
    RunReplaced (before ++ a ++ after) (before ++ b ++ after) := by
  obtain ⟨front, run, run', back, rfl, rfl, hlen, hshort, hne⟩ := h
  exact ⟨before ++ front, run, run', back ++ after, by simp, by simp, hlen, hshort, hne⟩

theorem append_left (h : RunReplaced a b) (before : Bytes) :
    RunReplaced (before ++ a) (before ++ b) := by
  simpa using h.between before []

theorem append_right (h : RunReplaced a b) (after : Bytes) :
    RunReplaced (a ++ after) (b ++ after) :=
  h.between [] after

/-- **A replaced run changes the checksum.** -/
theorem compute_ne (h : RunReplaced a b) : Checksum.compute a ≠ Checksum.compute b := by
  obtain ⟨front, run, run', back, rfl, rfl, hlen, hshort, hne⟩ := h
  exact Checksum.compute_ne_of_burst hlen hshort hne

end Bytes.RunReplaced

open Bytes (RunReplaced)

/-! ## The place of a message type -/

namespace Description

variable {n m m' : Message} {ms front back below lower mid upper above : List Message}

/-- A sorted list is cut where an id belongs: behind all smaller ones. -/
theorem exists_cut (h : ms.Pairwise fun a b => a.id ≤ b.id) (id : UInt16) : ∃ lower upper,
    ms = lower ++ upper ∧ (∀ a ∈ lower, a.id < id) ∧ ∀ a ∈ upper, id ≤ a.id := by
  induction ms with
  | nil => exact ⟨[], [], rfl, nofun, nofun⟩
  | cons a ms ih =>
    obtain ⟨ha, hms⟩ := List.pairwise_cons.mp h
    by_cases hlt : a.id < id
    · obtain ⟨lower, upper, rfl, hlower, hupper⟩ := ih hms
      exact ⟨a :: lower, upper, rfl, List.forall_mem_cons.mpr ⟨hlt, hlower⟩, hupper⟩
    · have hge := UInt16.not_lt.mp hlt
      exact ⟨[], a :: ms, rfl, nofun,
        List.forall_mem_cons.mpr ⟨hge, fun b hb => UInt16.le_trans hge (ha b hb)⟩⟩

/-- The first message type of a description stands behind those with smaller ids and before all
others. -/
theorem sorted_cons (hms : sorted ⟨ms⟩ = lower ++ upper) (hlower : ∀ a ∈ lower, a.id < n.id)
    (hupper : ∀ a ∈ upper, n.id ≤ a.id) : sorted ⟨n :: ms⟩ = lower ++ n :: upper := by
  obtain ⟨lower', upper', hcons, hrest, hlower'⟩ := List.mergeSort_cons id_le_trans id_le_total n ms
  have hsorted := pairwise_sorted ⟨n :: ms⟩
  rw [sorted, hcons, List.pairwise_append] at hsorted
  have hupper' (a : Message) (ha : a ∈ upper') : n.id ≤ a.id :=
    List.rel_of_pairwise_cons hsorted.2.1 ha
  rw [sorted, hcons]
  -- What is below in one of the cuts and above in the other is nothing.
  rcases List.append_eq_append_iff.mp (hms.symm.trans hrest) with ⟨mid, rfl, rfl⟩ | ⟨mid, rfl, rfl⟩
  · cases mid with
    | nil => simp
    | cons a mid =>
      have hlt : a.id < n.id := by simpa using hlower' a (by simp)
      exact absurd hlt (UInt16.not_lt.mpr (hupper a (by simp)))
  · cases mid with
    | nil => simp
    | cons a mid =>
      exact absurd (hlower a (by simp)) (UInt16.not_lt.mpr (hupper' a (by simp)))

theorem sorted_cons_of_le (hms : sorted ⟨ms⟩ = lower ++ mid ++ m :: above)
    (hlower : ∀ a ∈ lower, a.id < n.id) (hmid : ∀ a ∈ mid, n.id ≤ a.id) (hle : n.id ≤ m.id) :
    sorted ⟨n :: ms⟩ = lower ++ n :: mid ++ m :: above := by
  have hsorted := pairwise_sorted ⟨ms⟩
  rw [hms, List.pairwise_append] at hsorted
  have habove (a : Message) (ha : a ∈ above) : n.id ≤ a.id :=
    UInt16.le_trans hle (List.rel_of_pairwise_cons hsorted.2.1 ha)
  have hupper : ∀ a ∈ mid ++ m :: above, n.id ≤ a.id :=
    List.forall_mem_append.mpr ⟨hmid, List.forall_mem_cons.mpr ⟨hle, habove⟩⟩
  simpa using sorted_cons (by simpa using hms) hlower hupper

theorem sorted_cons_of_lt (hms : sorted ⟨ms⟩ = below ++ m :: (mid ++ upper))
    (hmid : ∀ a ∈ mid, a.id < n.id) (hupper : ∀ a ∈ upper, n.id ≤ a.id) (hlt : m.id < n.id) :
    sorted ⟨n :: ms⟩ = below ++ m :: (mid ++ n :: upper) := by
  have hsorted := pairwise_sorted ⟨ms⟩
  rw [hms, List.pairwise_append] at hsorted
  have hbelow (a : Message) (ha : a ∈ below) : a.id < n.id :=
    UInt16.lt_of_le_of_lt (hsorted.2.2 a ha m (by simp)) hlt
  have hlower : ∀ a ∈ below ++ m :: mid, a.id < n.id :=
    List.forall_mem_append.mpr ⟨hbelow, List.forall_mem_cons.mpr ⟨hlt, hmid⟩⟩
  simpa using sorted_cons (by simpa using hms) hlower hupper

/-- Between `front` and `back` a message type has the same place in the order of ids under either id.
Message types with the same id keep the order of the description. -/
structure KeepsPlace (front back : List Message) (id id' : UInt16) : Prop where
  front : ∀ n ∈ front, n.id ≤ id ↔ n.id ≤ id'
  back : ∀ n ∈ back, n.id < id ↔ n.id < id'

theorem KeepsPlace.refl (front back : List Message) (id : UInt16) : KeepsPlace front back id id :=
  ⟨fun _ _ => .rfl, fun _ _ => .rfl⟩

/-- **A message type that keeps its place is hashed in place of the former one.** -/
theorem exists_sorted_split (h : KeepsPlace front back m.id m'.id) :
    ∃ below above, sorted ⟨front ++ m :: back⟩ = below ++ m :: above ∧
      sorted ⟨front ++ m' :: back⟩ = below ++ m' :: above := by
  induction front with
  | nil =>
    obtain ⟨lower, upper, hback, hlower, hupper⟩ := exists_cut (pairwise_sorted ⟨back⟩) m.id
    have hmem : ∀ a ∈ lower ++ upper, a.id < m.id ↔ a.id < m'.id :=
      fun a ha => h.back a (List.mem_mergeSort.mp (hback ▸ ha))
    have hlower' (a : Message) (ha : a ∈ lower) : a.id < m'.id :=
      (hmem a (by simp [ha])).mp (hlower a ha)
    have hupper' (a : Message) (ha : a ∈ upper) : m'.id ≤ a.id :=
      UInt16.not_lt.mp (mt (hmem a (by simp [ha])).mpr (UInt16.not_lt.mpr (hupper a ha)))
    exact ⟨lower, upper, sorted_cons hback hlower hupper, sorted_cons hback hlower' hupper'⟩
  | cons n front ih =>
    obtain ⟨hn, hfront⟩ := List.forall_mem_cons.mp h.front
    obtain ⟨below, above, hm, hm'⟩ := ih ⟨hfront, h.back⟩
    have hsorted := pairwise_sorted ⟨front ++ m :: back⟩
    rw [hm, List.pairwise_append, List.pairwise_cons] at hsorted
    by_cases hle : n.id ≤ m.id
    · obtain ⟨lower, mid, rfl, hlower, hmid⟩ := exists_cut hsorted.1 n.id
      exact ⟨lower ++ n :: mid, above, sorted_cons_of_le hm hlower hmid hle,
        sorted_cons_of_le hm' hlower hmid (hn.mp hle)⟩
    · obtain ⟨mid, upper, rfl, hmid, hupper⟩ := exists_cut hsorted.2.1.2 n.id
      exact ⟨below, mid ++ n :: upper, sorted_cons_of_lt hm hmid hupper (UInt16.not_le.mp hle),
        sorted_cons_of_lt hm' hmid hupper (UInt16.not_le.mp (mt hn.mpr hle))⟩

end Description

/-! ## Edits -/

open Fingerprint

/-- An edit of a field: a run of its name, or its type, neither the former nor the new one being a
fixed-point type. -/
inductive Field.SmallEdit : Field → Field → Prop
  | name {name name' : String} (type : FieldType)
      (h : RunReplaced (Bytes.ofString name) (Bytes.ofString name')) :
      SmallEdit ⟨name, type⟩ ⟨name', type⟩
  | type {type type' : FieldType} (name : String) (h : type.scale? = none) (h' : type'.scale? = none)
      (hne : type ≠ type') : SmallEdit ⟨name, type⟩ ⟨name, type'⟩

/-- An edit of a message type: a run of its name, or one of its fields. -/
inductive Message.SmallEdit : Message → Message → Prop
  | name {name name' : String} (id : UInt16) (fields : List Field)
      (h : RunReplaced (Bytes.ofString name) (Bytes.ofString name')) :
      SmallEdit ⟨id, name, fields⟩ ⟨id, name', fields⟩
  | field {f f' : Field} (id : UInt16) (name : String) (front back : List Field)
      (h : f.SmallEdit f') : SmallEdit ⟨id, name, front ++ f :: back⟩ ⟨id, name, front ++ f' :: back⟩

/-- An edit of a description at a version: another version, another id of a message type that keeps its
place, or an edit of one of its message types. -/
inductive Description.SmallEdit :
    Description → ProtocolVersion → Description → ProtocolVersion → Prop
  | version {v v' : ProtocolVersion} (d : Description) (hne : v ≠ v') : SmallEdit d v d v'
  | id {id id' : UInt16} {front back : List Message} (name : String) (fields : List Field)
      (v : ProtocolVersion) (hplace : KeepsPlace front back id id') (hne : id ≠ id') :
      SmallEdit ⟨front ++ ⟨id, name, fields⟩ :: back⟩ v ⟨front ++ ⟨id', name, fields⟩ :: back⟩ v
  | message {m m' : Message} (front back : List Message) (v : ProtocolVersion) (h : m.SmallEdit m') :
      SmallEdit ⟨front ++ m :: back⟩ v ⟨front ++ m' :: back⟩ v

/-! ## Their bytes -/

theorem runReplaced_nameBytes {name name' : String}
    (h : RunReplaced (Bytes.ofString name) (Bytes.ofString name')) :
    RunReplaced (nameBytes name) (nameBytes name') := by
  have hsize : name.utf8ByteSize = name'.utf8ByteSize := by simpa using h.length_eq
  unfold nameBytes
  rw [hsize]
  exact h.append_left _

theorem Field.SmallEdit.runReplaced {f f' : Field} (h : f.SmallEdit f') :
    RunReplaced (fieldBytes f) (fieldBytes f') := by
  cases h with
  | name type h => exact (runReplaced_nameBytes h).append_right _
  | @type type type' name h h' hne =>
    have htag : [type.tag] ≠ [type'.tag] := by
      intro heq
      have hbytes : (type.tag :: scaleBytes type) ++ [] = (type'.tag :: scaleBytes type') ++ [] := by
        simpa [scaleBytes, h, h'] using heq
      exact hne (delimited_type trivial trivial hbytes).1
    have hrun : RunReplaced [type.tag] [type'.tag] := .of_ne rfl (by simp) htag
    simpa [fieldBytes, scaleBytes, h, h'] using hrun.append_left (nameBytes name)

theorem Message.SmallEdit.runReplaced {m m' : Message} (h : m.SmallEdit m') :
    RunReplaced (messageBytes m) (messageBytes m') := by
  cases h with
  | name id fields h =>
    simpa [messageBytes] using (runReplaced_nameBytes h).between (Bytes.ofNat 2 id.toNat)
      (countBytes fields.length ++ fields.flatMap fieldBytes)
  | @field f f' id name front back h =>
    simpa [messageBytes] using h.runReplaced.between
      (Bytes.ofNat 2 id.toNat ++ nameBytes name ++ countBytes (front ++ f :: back).length ++
        front.flatMap fieldBytes) (back.flatMap fieldBytes)

theorem Message.SmallEdit.id_eq {m m' : Message} (h : m.SmallEdit m') : m.id = m'.id := by
  cases h <;> rfl

theorem runReplaced_messageBytes_id {id id' : UInt16} (name : String) (fields : List Field)
    (hne : id ≠ id') :
    RunReplaced (messageBytes ⟨id, name, fields⟩) (messageBytes ⟨id', name, fields⟩) := by
  have hbytes : Bytes.ofNat 2 id.toNat ≠ Bytes.ofNat 2 id'.toNat :=
    fun h => hne (UInt16.toNat_inj.mp (Bytes.ofNat_inj id.toNat_lt id'.toNat_lt h))
  have hrun : RunReplaced (Bytes.ofNat 2 id.toNat) (Bytes.ofNat 2 id'.toNat) :=
    .of_ne (by simp) (by simp) hbytes
  simpa [messageBytes] using
    hrun.append_right (nameBytes name ++ countBytes fields.length ++ fields.flatMap fieldBytes)

/-- The bytes of a message type that keeps its place are replaced where they stand. -/
theorem runReplaced_canonicalBytes {m m' : Message} {front back : List Message}
    (hplace : Description.KeepsPlace front back m.id m'.id)
    (h : RunReplaced (messageBytes m) (messageBytes m')) (v : ProtocolVersion) :
    RunReplaced (canonicalBytes ⟨front ++ m :: back⟩ v) (canonicalBytes ⟨front ++ m' :: back⟩ v) := by
  obtain ⟨below, above, hm, hm'⟩ := Description.exists_sorted_split hplace
  unfold canonicalBytes
  rw [hm, hm']
  simpa using h.between
    (domain ++ [v.major, v.minor, headerLayout] ++ countBytes (front ++ m :: back).length ++
      below.flatMap messageBytes) (above.flatMap messageBytes)

theorem runReplaced_canonicalBytes_version {v v' : ProtocolVersion} (d : Description) (hne : v ≠ v') :
    RunReplaced (canonicalBytes d v) (canonicalBytes d v') := by
  have hbytes : [v.major, v.minor] ≠ [v'.major, v'.minor] := by
    intro h
    obtain ⟨major, minor⟩ := v
    obtain ⟨major', minor'⟩ := v'
    simp only [List.cons.injEq, and_true] at h
    exact hne (by rw [h.1, h.2])
  have hrun : RunReplaced [v.major, v.minor] [v'.major, v'.minor] := .of_ne rfl (by simp) hbytes
  simpa [canonicalBytes] using hrun.between domain
    (headerLayout :: countBytes d.messages.length ++ d.sorted.flatMap messageBytes)

namespace Description

theorem SmallEdit.runReplaced {d d' : Description} {v v' : ProtocolVersion}
    (h : SmallEdit d v d' v') : RunReplaced (canonicalBytes d v) (canonicalBytes d' v') := by
  cases h with
  | version d hne => exact runReplaced_canonicalBytes_version d hne
  | id name fields v hplace hne =>
    exact runReplaced_canonicalBytes hplace (runReplaced_messageBytes_id name fields hne) v
  | message front back v h =>
    exact runReplaced_canonicalBytes (h.id_eq ▸ .refl front back _) h.runReplaced v

theorem SmallEdit.hash_ne {d d' : Description} {v v' : ProtocolVersion} (h : SmallEdit d v d' v') :
    d.hash v ≠ d'.hash v' :=
  fun hhash => h.runReplaced.compute_ne (congrArg SchemaHash.value hhash)

/-- **Small edits of a schema always change its hash**, whatever the schema. In particular a description
has another hash at every version. The hash is the CRC-32/ISO-HDLC of the canonical bytes. -/
theorem hash_ne_of_smallEdit {d d' : Description} {v v' : ProtocolVersion}
    (h : SmallEdit d v d' v') :
    d.hash v ≠ d'.hash v' ∧ Function.Injective d.hash ∧
      (d.hash v).value.toBitVec = Checksum.isoHdlc.compute (canonicalBytes d v) := by
  refine ⟨h.hash_ne, fun v v' hhash => ?_, Checksum.compute_eq_isoHdlc _⟩
  by_contra hversion
  exact SmallEdit.hash_ne (.version d hversion) hhash

/-- The last message type of `mixedDescription` has another id. -/
def renumberedDescription : Description :=
  ⟨[Schema.armMessage, Schema.lampMessage, ⟨39, "Winch", Schema.winchMessage.fields⟩]⟩

/-- A field of the first message type of `mixedDescription` has another name. -/
def renamedDescription : Description :=
  ⟨[⟨40, "Arm", [⟨"joint", .u8⟩, ⟨"ankle", .f32⟩]⟩, Schema.lampMessage, Schema.winchMessage]⟩

theorem hash_ne_of_smallEdit_mixed :
    SmallEdit Schema.mixedDescription .current renumberedDescription .current ∧
      Schema.mixedDescription.hash .current ≠ renumberedDescription.hash .current ∧
      SmallEdit Schema.mixedDescription .current renamedDescription .current ∧
      Schema.mixedDescription.hash .current ≠ renamedDescription.hash .current := by
  have hplace : KeepsPlace [Schema.armMessage, Schema.lampMessage] [] 7 39 := ⟨by decide, nofun⟩
  have hnumber : SmallEdit Schema.mixedDescription .current renumberedDescription .current :=
    .id "Winch" Schema.winchMessage.fields .current hplace (by decide)
  have hrun : RunReplaced (Bytes.ofString "angle") (Bytes.ofString "ankle") :=
    ⟨Bytes.ofString "an", Bytes.ofString "g", Bytes.ofString "k", Bytes.ofString "le",
      by decide +kernel, by decide +kernel, by decide +kernel, by decide +kernel,
      by decide +kernel⟩
  have hfield : Message.SmallEdit Schema.armMessage ⟨40, "Arm", [⟨"joint", .u8⟩, ⟨"ankle", .f32⟩]⟩ :=
    .field 40 "Arm" [⟨"joint", .u8⟩] [] (.name .f32 hrun)
  have hrename : SmallEdit Schema.mixedDescription .current renamedDescription .current :=
    .message [] [Schema.lampMessage, Schema.winchMessage] .current hfield
  exact ⟨hnumber, (hash_ne_of_smallEdit hnumber).1, hrename, (hash_ne_of_smallEdit hrename).1⟩

end Description

end CommandLink
