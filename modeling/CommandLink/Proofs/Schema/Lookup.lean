import CommandLink.Proofs.Schema.Order

/-!
# Registries and the descriptions they come from

A description finds the first of its message types with an id, and a registry keeps the last one that
was entered. Where the ids are distinct, as they are in all that is compiled, the two agree.

* `Registry.contains_eq`: a registry has an id exactly if it finds a message type under it.
* `Message.wireSize_eq_sum`, `Message.wireSize_le`: the size of a record, field by field.
* `Schema.registry_agrees`: what a registry holds, lists and finds is what its description declares.
-/

namespace CommandLink

/-! ## Sizes -/

namespace Message

variable {m : Message}

theorem wireSize_eq_sum (m : Message) :
    m.wireSize = (m.fields.map fun f => f.type.wireSize).foldr (· + ·) 0 := by
  unfold wireSize
  rw [List.foldr_map]

/-- No field has more than four bytes. -/
theorem wireSize_le (m : Message) : m.wireSize ≤ 4 * m.fields.length := by
  unfold wireSize
  induction m.fields with
  | nil => exact Nat.le_refl _
  | cons f fields ih =>
    have := f.type.wireSize_le
    rw [List.foldr_cons, List.length_cons]
    omega

end Message

/-! ## Registries -/

namespace Registry

theorem contains_eq (r : Registry) (id : UInt16) : r.contains id = (r.get? id).isSome := by
  unfold contains get?
  rw [Bool.eq_iff_iff, List.any_eq_true, List.find?_isSome]

/-- The registered ids come in strictly ascending order. -/
theorem ascending_ids (r : Registry) : r.ids.Pairwise (· < ·) := List.pairwise_map.mpr r.ascending

end Registry

/-! ## Schemas -/

namespace Schema

variable {s : Schema} {d : Description} {v : ProtocolVersion} {limits : Limits}

/-- A lookup gives what the registry finds. -/
theorem lookup_eq_ok_iff {id : UInt16} {m : Message} :
    s.lookup id = .ok m ↔ s.message? id = some m := by
  unfold lookup
  cases s.message? id <;> simp

theorem lookup_eq_error_iff {id : UInt16} :
    s.lookup id = .error (.unknownMessageType id) ↔ s.message? id = none := by
  unfold lookup
  cases s.message? id <;> simp

/-- **A registry agrees with the description that it was compiled from.** It holds every declared
message type once and nothing else, and lists their ids in strictly ascending order. Under every id it
finds what the description finds, the very message type, or neither finds any. The records of a
message type that is found have the size of their fields together: at least one byte, and at most four
for each of the admitted fields. -/
theorem registry_agrees (hs : compile d v limits = .ok s) :
    s.registry.messages.Perm d.messages ∧
    s.registry.ids.Perm (d.messages.map Message.id) ∧ s.registry.ids.Pairwise (· < ·) ∧
    ∀ id, s.registry.get? id = d.message? id ∧
      s.registry.contains id = (d.message? id).isSome ∧
      (s.lookup id = .error (.unknownMessageType id) ↔ d.message? id = none) ∧
      ∀ m, (s.lookup id = .ok m ↔ d.message? id = some m) ∧
        (s.lookup id = .ok m →
          m.wireSize = (m.fields.map fun f => f.type.wireSize).foldr (· + ·) 0 ∧
          1 ≤ m.wireSize ∧ m.wireSize ≤ 4 * limits.fieldsPerMessage) := by
  obtain ⟨hnone, -, rfl⟩ := compile_eq_ok_iff.mp hs
  obtain ⟨hwf, hwithin⟩ := Description.violation?_eq_none_iff.mp hnone
  have hperm : s.registry.messages.Perm s.description.messages :=
    Registry.perm_ofMessages hwf.distinctIds
  have hfind (id : UInt16) : s.registry.get? id = s.description.message? id := s.message?_eq id
  refine ⟨hperm, hperm.map Message.id, s.registry.ascending_ids, fun id => ?_⟩
  refine ⟨hfind id, ?_, ?_, fun m => ⟨?_, fun hm => ?_⟩⟩
  · rw [Registry.contains_eq, hfind]
  · rw [lookup_eq_error_iff, message?_eq]
  · rw [lookup_eq_ok_iff, message?_eq]
  · have hmessage : m ∈ s.description.messages :=
      List.mem_of_find?_eq_some (s.message?_eq id ▸ lookup_eq_ok_iff.mp hm)
    have hfields := hwithin.fields m hmessage
    have hsize := m.wireSize_le
    exact ⟨m.wireSize_eq_sum, (hwf.messages m hmessage).wireSize_pos, by omega⟩

theorem registry_agrees_mixed :
    ∃ s, compile mixedDescription .current .standard = .ok s ∧
      s.registry.ids.Perm [40, 3, 7] ∧ s.registry.ids.Pairwise (· < ·) ∧
      s.lookup 7 = .ok winchMessage ∧ s.registry.contains 8 = false ∧
      1 ≤ winchMessage.wireSize ∧ winchMessage.wireSize ≤ 4 * 64 := by
  obtain ⟨s, hs⟩ : ∃ s, compile mixedDescription .current .standard = .ok s :=
    exists_compile_iff.mpr (by decide +kernel)
  obtain ⟨-, hids, hascending, hfind⟩ := registry_agrees hs
  obtain ⟨-, -, -, hwinch⟩ := hfind 7
  obtain ⟨-, hcontains, -⟩ := hfind 8
  have hlookup := (hwinch winchMessage).1.mpr rfl
  obtain ⟨-, hlow, hhigh⟩ := (hwinch winchMessage).2 hlookup
  exact ⟨s, hs, hids, hascending, hlookup, hcontains, hlow, hhigh⟩

end Schema

end CommandLink
