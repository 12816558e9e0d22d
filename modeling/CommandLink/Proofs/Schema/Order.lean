import CommandLink.Proofs.Schema.Registry

/-!
# The order of message types

A description is a list, but as a schema it is the set of its message types.

* `Description.sorted_congr`, `Description.hash_congr`: message types with distinct ids are hashed in
  the same order however they are listed.
* `Schema.compile_eq_ok_iff`: what is compiled and what comes of it.
* `Schema.compile_perm`: another order of the message types compiles under the same conditions, to a
  schema with the same hash and the same registry.
-/

namespace CommandLink

variable {d d' : Description}

/-! ## The rules -/

theorem Description.WellFormed.perm (h : d.WellFormed) (hperm : d.messages.Perm d'.messages) :
    d'.WellFormed where
  nonempty hnil := h.nonempty (List.Perm.eq_nil (hnil ▸ hperm))
  messages m hm := h.messages m (hperm.mem_iff.mpr hm)
  distinctIds := (hperm.map _).nodup_iff.mp h.distinctIds
  distinctNames := (hperm.map _).nodup_iff.mp h.distinctNames

theorem Description.Within.perm {limits : Limits} (h : d.Within limits)
    (hperm : d.messages.Perm d'.messages) : d'.Within limits where
  messages := hperm.length_eq ▸ h.messages
  fields m hm := h.fields m (hperm.mem_iff.mpr hm)

/-- A violation is found in either order or in none. -/
theorem Description.violation?_eq_none_congr {limits : Limits}
    (hperm : d.messages.Perm d'.messages) :
    d.violation? limits = none ↔ d'.violation? limits = none := by
  rw [violation?_eq_none_iff, violation?_eq_none_iff]
  constructor
  · exact fun ⟨hwf, hwithin⟩ => ⟨hwf.perm hperm, hwithin.perm hperm⟩
  · exact fun ⟨hwf, hwithin⟩ => ⟨hwf.perm hperm.symm, hwithin.perm hperm.symm⟩

/-! ## The hash -/

namespace Description

variable (hperm : d.messages.Perm d'.messages) (hids : (d.messages.map Message.id).Nodup)

include hperm hids

/-- Message types with distinct ids have one ascending order. -/
theorem sorted_congr : d.sorted = d'.sorted := by
  have hids' : (d'.messages.map Message.id).Nodup := (hperm.map _).nodup_iff.mp hids
  have hsorted : d.sorted.Perm d'.sorted :=
    d.perm_sorted.trans (hperm.trans d'.perm_sorted.symm)
  exact eq_of_ascending hsorted (ascending_sorted hids) (ascending_sorted hids')

theorem canonicalBytes_congr (v : ProtocolVersion) :
    Fingerprint.canonicalBytes d v = Fingerprint.canonicalBytes d' v := by
  unfold Fingerprint.canonicalBytes
  rw [sorted_congr hperm hids, hperm.length_eq]

theorem hash_congr (v : ProtocolVersion) : d.hash v = d'.hash v := by
  unfold hash
  rw [canonicalBytes_congr hperm hids]

end Description

/-! ## Compiling -/

namespace Schema

variable {s : Schema} {v : ProtocolVersion} {limits : Limits}

/-- What is compiled is what has no violation, as it is. -/
theorem compile_eq_ok_iff : compile d v limits = .ok s ↔
    d.violation? limits = none ∧ s.version = v ∧ s.description = d := by
  unfold compile
  split
  · rename_i hnone
    rw [Except.ok.injEq]
    constructor
    · rintro rfl
      exact ⟨hnone, rfl, rfl⟩
    · rintro ⟨-, rfl, rfl⟩
      rfl
  · rename_i violation hsome
    simp [hsome]

theorem exists_compile_iff :
    (∃ s, compile d v limits = .ok s) ↔ d.violation? limits = none := by
  constructor
  · rintro ⟨s, hs⟩
    exact (compile_eq_ok_iff.mp hs).1
  · intro hnone
    exact ⟨⟨v, d, (Description.violation?_eq_none_iff.mp hnone).1⟩,
      compile_eq_ok_iff.mpr ⟨hnone, rfl, rfl⟩⟩

/-- **The order of the message types does not matter.** Listed in another order, a description is
compiled under the same conditions, and to a schema with the same hash and the same registry, in which
the same message type, or none, is found under every id. -/
theorem compile_perm (hperm : d.messages.Perm d'.messages) (v : ProtocolVersion) (limits : Limits) :
    ((∃ s, compile d v limits = .ok s) ↔ ∃ s', compile d' v limits = .ok s') ∧
      ∀ s s', compile d v limits = .ok s → compile d' v limits = .ok s' →
        s.hash = s'.hash ∧ s.registry = s'.registry ∧ s.registry.ids = s'.registry.ids ∧
          ∀ id, s.lookup id = s'.lookup id := by
  refine ⟨?_, fun s s' hs hs' => ?_⟩
  · rw [exists_compile_iff, exists_compile_iff, Description.violation?_eq_none_congr hperm]
  · obtain ⟨-, rfl, rfl⟩ := compile_eq_ok_iff.mp hs
    obtain ⟨-, hversion, rfl⟩ := compile_eq_ok_iff.mp hs'
    have hids := s.wellFormed.distinctIds
    have hregistry : s.registry = s'.registry := Registry.ofMessages_congr hperm hids
    have hhash : s.hash = s'.hash := by
      unfold hash
      rw [hversion, Description.hash_congr hperm hids]
    refine ⟨hhash, hregistry, by rw [hregistry], fun id => ?_⟩
    unfold lookup message?
    rw [hregistry]

/-- Two numbers of different types. -/
def armMessage : Message := ⟨40, "Arm", [⟨"joint", .u8⟩, ⟨"angle", .f32⟩]⟩

/-- A truth value. -/
def lampMessage : Message := ⟨3, "Lamp", [⟨"on", .bool⟩]⟩

/-- A fixed-point number. -/
def winchMessage : Message := ⟨7, "Winch", [⟨"pull", .fixed32 (Binary.ofInt 100)⟩]⟩

/-- Three message types, none of them at the place of its id. -/
def mixedDescription : Description := ⟨[armMessage, lampMessage, winchMessage]⟩

theorem compile_perm_mixed :
    mixedDescription.messages.Perm mixedDescription.messages.reverse ∧
      ∃ s s', compile mixedDescription .current .standard = .ok s ∧
        compile ⟨mixedDescription.messages.reverse⟩ .current .standard = .ok s' ∧
        s.hash = s'.hash ∧ s.registry = s'.registry := by
  have hperm : mixedDescription.messages.Perm
      (Description.mk mixedDescription.messages.reverse).messages := (List.reverse_perm _).symm
  obtain ⟨hiff, hsame⟩ := compile_perm hperm .current .standard
  obtain ⟨s, hs⟩ : ∃ s, compile mixedDescription .current .standard = .ok s :=
    exists_compile_iff.mpr (by decide +kernel)
  obtain ⟨s', hs'⟩ := hiff.mp ⟨s, hs⟩
  obtain ⟨hhash, hregistry, -⟩ := hsame s s' hs hs'
  exact ⟨hperm, s, s', hs, hs', hhash, hregistry⟩

end Schema

end CommandLink
