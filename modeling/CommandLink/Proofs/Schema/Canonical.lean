import CommandLink.Packet.Codec
import CommandLink.Proofs.Float.Conversion
import CommandLink.Proofs.Schema.Order

/-!
# Canonical bytes say what a schema is

Every part of the canonical bytes tells where it ends (`Delimited`): numbers have a fixed width, names
and lists follow their length, and the tag of a field type says whether a scale follows. So nothing can
be read in two ways.

* `delimited_nameBytes`, `delimited_fieldBytes`, `delimited_messageBytes`: this for every part.
* `canonicalBytes_inj`: equal canonical bytes come from the same version and the same message types.
* `Schema.Interchangeable`: schemas that cannot be told apart by any packet.
* `Schema.canonicalBytes_eq_iff`: so two compiled schemas with equal canonical bytes are
  interchangeable, and others with equal hashes are a collision of the checksum alone.
-/

namespace CommandLink

/-! ## Parts that tell where they end -/

/-- Whatever follows what `write` makes of a valid value, the value and what follows can be told from the
bytes. -/
def Delimited {α : Type} (valid : α → Prop) (write : α → Bytes) : Prop :=
  ∀ ⦃a b : α⦄, valid a → valid b → ∀ ⦃rest rest' : Bytes⦄,
    write a ++ rest = write b ++ rest' → a = b ∧ rest = rest'

/-- As many delimited values in a row are delimited. -/
theorem Delimited.flatMap {α : Type} {valid : α → Prop} {write : α → Bytes}
    (h : Delimited valid write) {as bs : List α} (hlen : as.length = bs.length)
    (has : ∀ a ∈ as, valid a) (hbs : ∀ b ∈ bs, valid b) {rest rest' : Bytes}
    (heq : as.flatMap write ++ rest = bs.flatMap write ++ rest') : as = bs ∧ rest = rest' := by
  induction as generalizing bs with
  | nil =>
    obtain rfl := List.eq_nil_of_length_eq_zero hlen.symm
    exact ⟨rfl, heq⟩
  | cons a as ih =>
    cases bs with
    | nil => cases hlen
    | cons b bs =>
      obtain ⟨ha, has⟩ := List.forall_mem_cons.mp has
      obtain ⟨hb, hbs'⟩ := List.forall_mem_cons.mp hbs
      rw [List.flatMap_cons, List.flatMap_cons, List.append_assoc, List.append_assoc] at heq
      obtain ⟨rfl, htail⟩ := h ha hb heq
      obtain ⟨rfl, hrest⟩ := ih (Nat.succ.inj hlen) has hbs' htail
      exact ⟨rfl, hrest⟩

namespace Bytes

@[simp] theorem length_ofString (text : String) : (ofString text).length = text.utf8ByteSize :=
  Array.length_toList

theorem ofString_inj {a b : String} (h : ofString a = ofString b) : a = b := by
  unfold ofString at h
  exact String.toByteArray_inj.mp (ByteArray.ext (Array.toList_inj.mp h))

theorem ofNat_inj {width a b : Nat} (ha : a < 256 ^ width) (hb : b < 256 ^ width)
    (h : ofNat width a = ofNat width b) : a = b := by
  have hread := congrArg toNat h
  rwa [toNat_ofNat, toNat_ofNat, Nat.mod_eq_of_lt ha, Nat.mod_eq_of_lt hb] at hread

/-- A number of a fixed width is delimited. -/
theorem delimited_ofNat (width : Nat) : Delimited (· < 256 ^ width) (ofNat width) := by
  intro a b ha hb rest rest' h
  obtain ⟨hfront, hrest⟩ := List.append_inj h (by simp)
  exact ⟨ofNat_inj ha hb hfront, hrest⟩

end Bytes

namespace Fingerprint

/-- The name is short enough for its length to be written. -/
def NameFits (name : String) : Prop := name.utf8ByteSize < 256 ^ 4

/-- The names and the list of fields are short enough for their lengths to be written. -/
structure MessageFits (m : Message) : Prop where
  name : NameFits m.name
  count : m.fields.length < 256 ^ 4
  fields : ∀ f ∈ m.fields, NameFits f.name

/-- A name follows its length. -/
theorem delimited_nameBytes : Delimited NameFits nameBytes := by
  intro a b ha hb rest rest' h
  unfold nameBytes at h
  rw [List.append_assoc, List.append_assoc] at h
  obtain ⟨hsize, htail⟩ := Bytes.delimited_ofNat 4 ha hb h
  obtain ⟨hname, hrest⟩ := List.append_inj htail (by simpa using hsize)
  exact ⟨Bytes.ofString_inj hname, hrest⟩

theorem delimited_toBits : Delimited (fun _ => True) fun x : Binary64 => Bytes.ofNat 8 x.toBits := by
  intro x y _ _ rest rest' h
  have hfits (z : Binary64) : z.toBits < 256 ^ 8 := z.toBits_lt
  obtain ⟨hbits, hrest⟩ := Bytes.delimited_ofNat 8 (hfits x) (hfits y) h
  refine ⟨?_, hrest⟩
  rw [← x.ofBits_toBits, ← y.ofBits_toBits, hbits]

/-- The tag of a type says whether a scale follows. -/
theorem delimited_type :
    Delimited (fun _ => True) fun type : FieldType => type.tag :: scaleBytes type := by
  intro a b _ _ rest rest' h
  obtain ⟨htag, htail⟩ := List.cons.inj h
  cases a with
  | fixed32 x =>
    cases b with
    | fixed32 y =>
      obtain ⟨rfl, hrest⟩ := delimited_toBits trivial trivial htail
      exact ⟨rfl, hrest⟩
    | _ => cases htag
  | _ => cases b <;> first | exact ⟨rfl, htail⟩ | cases htag

theorem delimited_fieldBytes : Delimited (fun f : Field => NameFits f.name) fieldBytes := by
  intro f g hf hg rest rest' h
  unfold fieldBytes at h
  rw [List.append_assoc, List.append_assoc] at h
  obtain ⟨hname, htail⟩ := delimited_nameBytes hf hg h
  obtain ⟨htype, hrest⟩ := delimited_type trivial trivial htail
  cases f
  cases g
  simp only at hname htype
  rw [hname, htype]
  exact ⟨rfl, hrest⟩

/-- **The bytes of a message type tell where they end.** -/
theorem delimited_messageBytes : Delimited MessageFits messageBytes := by
  intro m n hm hn rest rest' h
  unfold messageBytes at h
  simp only [List.append_assoc] at h
  obtain ⟨hid, h⟩ := Bytes.delimited_ofNat 2 m.id.toNat_lt n.id.toNat_lt h
  obtain ⟨hname, h⟩ := delimited_nameBytes hm.name hn.name h
  obtain ⟨hcount, h⟩ := Bytes.delimited_ofNat 4 hm.count hn.count h
  obtain ⟨hfields, hrest⟩ := delimited_fieldBytes.flatMap hcount hm.fields hn.fields h
  cases m
  cases n
  simp only at hid hname hfields
  rw [UInt16.toNat_inj.mp hid, hname, hfields]
  exact ⟨rfl, hrest⟩

/-- The counts of a description are small enough to be written. -/
structure DescriptionFits (d : Description) : Prop where
  count : d.messages.length < 256 ^ 4
  messages : ∀ m ∈ d.messages, MessageFits m

theorem descriptionFits_of_standard {d : Description} (h : d.violation? .standard = none) :
    DescriptionFits d := by
  obtain ⟨hwf, hwithin⟩ := Description.violation?_eq_none_iff.mp h
  have hshort {name : String} (hname : ValidName name) : NameFits name :=
    Nat.lt_of_le_of_lt hname.short (by decide)
  exact {
    count := Nat.lt_of_le_of_lt hwithin.messages (by decide)
    messages := fun m hm => {
      name := hshort (hwf.messages m hm).name
      count := Nat.lt_of_le_of_lt (hwithin.fields m hm) (by decide)
      fields := fun f hf => hshort ((hwf.messages m hm).fields f hf).name } }

/-- **Equal canonical bytes come from the same version and the same message types.** -/
theorem canonicalBytes_inj {d d' : Description} {v v' : ProtocolVersion} (hd : DescriptionFits d)
    (hd' : DescriptionFits d') (h : canonicalBytes d v = canonicalBytes d' v') :
    v = v' ∧ d.messages.Perm d'.messages := by
  have hfits {d : Description} (hd : DescriptionFits d) : ∀ m ∈ d.sorted, MessageFits m :=
    fun m hm => hd.messages m (d.perm_sorted.mem_iff.mp hm)
  obtain ⟨major, minor⟩ := v
  obtain ⟨major', minor'⟩ := v'
  unfold canonicalBytes at h
  simp only [List.append_assoc, List.append_cancel_left_eq, List.cons_append, List.nil_append,
    List.cons.injEq, true_and] at h
  obtain ⟨rfl, rfl, h⟩ := h
  obtain ⟨hcount, h⟩ := Bytes.delimited_ofNat 4 hd.count hd'.count h
  have hlen : d.sorted.length = d'.sorted.length := by
    rw [d.perm_sorted.length_eq, d'.perm_sorted.length_eq, hcount]
  have hend : d.sorted.flatMap messageBytes ++ [] = d'.sorted.flatMap messageBytes ++ [] := by
    rw [h]
  obtain ⟨hsorted, -⟩ := delimited_messageBytes.flatMap hlen (hfits hd) (hfits hd') hend
  exact ⟨rfl, d.perm_sorted.symm.trans (hsorted ▸ d'.perm_sorted)⟩

end Fingerprint

/-! ## Schemas that cannot be told apart -/

namespace Schema

variable {s s' : Schema} {d d' : Description} {v v' : ProtocolVersion}

/-- The schemas have the same registry and the same hash, and what one of them makes of a batch or of
bytes, the other makes of it as well. -/
structure Interchangeable (s s' : Schema) : Prop where
  registry : s.registry = s'.registry
  hash : s.hash = s'.hash
  encode : ∀ typeId records flags,
    Packet.encode s typeId records flags = Packet.encode s' typeId records flags
  decode : ∀ typeId bytes, Packet.decode s typeId bytes = Packet.decode s' typeId bytes
  decodeFront : ∀ typeId buffer,
    Packet.decodeFront s typeId buffer = Packet.decodeFront s' typeId buffer

/-- Packets depend on the version and the registry alone. -/
theorem interchangeable_of_registry (hversion : s.version = s'.version)
    (hregistry : s.registry = s'.registry) (hhash : s.hash = s'.hash) : s.Interchangeable s' where
  registry := hregistry
  hash := hhash
  encode typeId records flags := by
    unfold Packet.encode message?
    rw [hregistry, hversion]
  decode typeId bytes := by
    unfold Packet.decode Packet.verify message?
    rw [hregistry, hversion]
  decodeFront typeId buffer := by
    unfold Packet.decodeFront Packet.verify message?
    rw [hregistry, hversion]

open Fingerprint in
/-- **Equal canonical bytes mean an interchangeable schema.** Two schemas that were compiled within the
standard limits have the same canonical bytes exactly if they have the same version and their
descriptions list the same message types, in whatever order. They are then interchangeable. If two
others have the same hash, the checksums of two different byte strings are the same. -/
theorem canonicalBytes_eq_iff (hs : compile d v .standard = .ok s)
    (hs' : compile d' v' .standard = .ok s') :
    (canonicalBytes d v = canonicalBytes d' v' ↔ v = v' ∧ d.messages.Perm d'.messages) ∧
      (canonicalBytes d v = canonicalBytes d' v' → s.Interchangeable s') ∧
      (s.hash = s'.hash → (v = v' ∧ d.messages.Perm d'.messages) ∨
        canonicalBytes d v ≠ canonicalBytes d' v' ∧
          Checksum.compute (canonicalBytes d v) = Checksum.compute (canonicalBytes d' v')) := by
  obtain ⟨hnone, rfl, rfl⟩ := compile_eq_ok_iff.mp hs
  obtain ⟨hnone', rfl, rfl⟩ := compile_eq_ok_iff.mp hs'
  have hids := s.wellFormed.distinctIds
  have hsame (h : canonicalBytes s.description s.version = canonicalBytes s'.description s'.version) :=
    canonicalBytes_inj (descriptionFits_of_standard hnone) (descriptionFits_of_standard hnone') h
  have hiff : canonicalBytes s.description s.version = canonicalBytes s'.description s'.version ↔
      s.version = s'.version ∧ s.description.messages.Perm s'.description.messages := by
    refine ⟨hsame, fun ⟨hversion, hperm⟩ => ?_⟩
    rw [hversion, Description.canonicalBytes_congr hperm hids]
  refine ⟨hiff, fun heq => ?_, fun hhash => ?_⟩
  · obtain ⟨hversion, hperm⟩ := hiff.mp heq
    refine interchangeable_of_registry hversion (Registry.ofMessages_congr hperm hids) ?_
    unfold hash Description.hash
    rw [heq]
  · rw [← hiff]
    refine (Decidable.em _).imp_right fun hne => ⟨hne, ?_⟩
    exact congrArg SchemaHash.value hhash

open Fingerprint in
theorem canonicalBytes_eq_iff_mixed :
    ∃ s s', compile mixedDescription .current .standard = .ok s ∧
      compile ⟨mixedDescription.messages.reverse⟩ .current .standard = .ok s' ∧
      canonicalBytes mixedDescription .current =
        canonicalBytes ⟨mixedDescription.messages.reverse⟩ .current ∧
      s.Interchangeable s' ∧
      canonicalBytes mixedDescription .current ≠ canonicalBytes mixedDescription ⟨2, 5⟩ := by
  obtain ⟨s, hs⟩ : ∃ s, compile mixedDescription .current .standard = .ok s :=
    exists_compile_iff.mpr (by decide +kernel)
  obtain ⟨s', hs'⟩ :
      ∃ s', compile ⟨mixedDescription.messages.reverse⟩ .current .standard = .ok s' :=
    exists_compile_iff.mpr (by decide +kernel)
  obtain ⟨t, ht⟩ : ∃ t, compile mixedDescription ⟨2, 5⟩ .standard = .ok t :=
    exists_compile_iff.mpr (by decide +kernel)
  obtain ⟨hiff, hsame, -⟩ := canonicalBytes_eq_iff hs hs'
  have heq := hiff.mpr ⟨rfl, (List.reverse_perm _).symm⟩
  refine ⟨s, s', hs, hs', heq, hsame heq, fun hversion => ?_⟩
  exact absurd ((canonicalBytes_eq_iff hs ht).1.mp hversion).1 (by decide)

end Schema

end CommandLink
