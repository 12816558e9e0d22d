import CommandLink.Schema.Basic
import Mathlib.Data.List.Induction
import Mathlib.Data.List.Perm.Basic

/-!
# What a registry holds

* `get?_enter`: of the message types with one id, the one that was entered last is found.
* `perm_ofMessages`, `ofMessages_congr`: a registry of message types with distinct ids holds all of them,
  and it is the same whatever order they were entered in.
* `Schema.message?_eq`, `Schema.messages_eq`: so a schema finds the message types that its description
  declares, and lists them in the order in which they are hashed.
-/

namespace CommandLink

/-- Where ids are distinct, a message type is found under its id. -/
theorem find?_id_eq_some_iff {ms : List Message} (hids : (ms.map Message.id).Nodup) {id : UInt16}
    {m : Message} : ms.find? (·.id == id) = some m ↔ m ∈ ms ∧ m.id = id := by
  induction ms with
  | nil => simp
  | cons n rest ih =>
    obtain ⟨hn, hrest⟩ := List.nodup_cons.mp hids
    rw [List.find?_cons]
    by_cases h : n.id = id
    · have hother (hm : m ∈ rest) (hid : m.id = id) : False :=
        hn (List.mem_map.mpr ⟨m, hm, hid.trans h.symm⟩)
      simp only [h, beq_self_eq_true, Option.some.injEq, List.mem_cons]
      constructor
      · rintro rfl
        exact ⟨.inl rfl, h⟩
      · rintro ⟨rfl | hm, hid⟩
        · rfl
        · exact (hother hm hid).elim
    · simp only [beq_eq_false_iff_ne.mpr h, ih hrest, List.mem_cons]
      constructor
      · exact fun hm => ⟨.inr hm.1, hm.2⟩
      · rintro ⟨rfl | hm, hid⟩
        · exact absurd hid h
        · exact ⟨hm, hid⟩

/-- What is found by its id does not depend on the order if ids are distinct. -/
theorem find?_id_congr {ms ms' : List Message} (hperm : ms.Perm ms')
    (hids : (ms.map Message.id).Nodup) (id : UInt16) :
    ms.find? (·.id == id) = ms'.find? (·.id == id) := by
  have hids' : (ms'.map Message.id).Nodup := (hperm.map _).nodup_iff.mp hids
  refine Option.ext fun m => ?_
  rw [find?_id_eq_some_iff hids, find?_id_eq_some_iff hids', hperm.mem_iff]

/-- Ascending lists of the same message types are the same. -/
theorem eq_of_ascending {ms ms' : List Message} (hperm : ms.Perm ms')
    (h : ms.Pairwise fun a b => a.id < b.id) (h' : ms'.Pairwise fun a b => a.id < b.id) :
    ms = ms' :=
  hperm.eq_of_pairwise (fun _ _ _ _ hab hba => absurd hab (UInt16.lt_asymm hba)) h h'

namespace Registry

variable {r : Registry} {m : Message} {ms : List Message}

@[simp] theorem ofMessages_concat (ms : List Message) (m : Message) :
    ofMessages (ms ++ [m]) = (ofMessages ms).enter m :=
  List.foldl_concat ..

/-! ## Looking up -/

theorem find?_insertInto (m : Message) (ms : List Message) (id : UInt16) :
    (insertInto m ms).find? (·.id == id) =
      if m.id = id then some m else ms.find? (·.id == id) := by
  induction ms with
  | nil => by_cases h : m.id = id <;> simp [insertInto, h]
  | cons n rest ih =>
    simp only [insertInto]
    split
    · by_cases h : m.id = id <;> simp [h]
    · split
      · rename_i heq
        by_cases h : m.id = id
        · simp [h]
        · simp [h, heq ▸ h]
      · rename_i hne
        by_cases hn : n.id = id
        · have hm : m.id ≠ id := fun h => hne (h.trans hn.symm)
          simp [hn, hm]
        · simp [hn, ih]

/-- **Of the message types with one id, the one that was entered last is found.** -/
@[simp] theorem get?_enter (r : Registry) (m : Message) (id : UInt16) :
    (r.enter m).get? id = if m.id = id then some m else r.get? id :=
  find?_insertInto m r.messages id

/-! ## What is held -/

theorem distinctIds (r : Registry) : (r.messages.map Message.id).Nodup :=
  List.pairwise_map.mpr (r.ascending.imp UInt16.ne_of_lt)

theorem perm_insertInto (h : m.id ∉ ms.map Message.id) : (insertInto m ms).Perm (m :: ms) := by
  induction ms with
  | nil => exact .refl _
  | cons n rest ih =>
    obtain ⟨hn, hrest⟩ := not_or.mp (mt List.mem_cons.mpr h)
    simp only [insertInto]
    split
    · exact .refl _
    · exact ((ih hrest).cons n).trans (.swap ..)

/-- A registry holds nothing that was not entered. -/
theorem mem_of_mem_ofMessages (h : m ∈ (ofMessages ms).messages) : m ∈ ms := by
  induction ms using List.reverseRecOn with
  | nil => cases h
  | append_singleton ms n ih =>
    rw [ofMessages_concat] at h
    rcases mem_insertInto h with rfl | h
    · exact List.mem_append_right ms (List.mem_singleton_self m)
    · exact List.mem_append_left _ (ih h)

/-- **A registry holds every message type that was entered**, if their ids are distinct. -/
theorem perm_ofMessages (hids : (ms.map Message.id).Nodup) : (ofMessages ms).messages.Perm ms := by
  induction ms using List.reverseRecOn with
  | nil => exact .refl _
  | append_singleton ms m ih =>
    have hlast : (ms ++ [m]).Perm (m :: ms) := List.perm_append_singleton m ms
    obtain ⟨hm, hms⟩ := List.nodup_cons.mp ((hlast.map Message.id).nodup_iff.mp hids)
    have hfresh : m.id ∉ (ofMessages ms).messages.map Message.id := by
      rwa [((ih hms).map Message.id).mem_iff]
    rw [ofMessages_concat]
    exact (perm_insertInto hfresh).trans (((ih hms).cons m).trans hlast.symm)

/-- **The order in which message types with distinct ids are entered does not matter.** -/
theorem ofMessages_congr {ms' : List Message} (hperm : ms.Perm ms')
    (hids : (ms.map Message.id).Nodup) : ofMessages ms = ofMessages ms' := by
  have hids' : (ms'.map Message.id).Nodup := (hperm.map _).nodup_iff.mp hids
  have hsame : (ofMessages ms).messages = (ofMessages ms').messages :=
    eq_of_ascending ((perm_ofMessages hids).trans (hperm.trans (perm_ofMessages hids').symm))
      (ofMessages ms).ascending (ofMessages ms').ascending
  generalize ofMessages ms = r at hsame ⊢
  generalize ofMessages ms' = r' at hsame ⊢
  cases r
  cases r'
  simpa using hsame

end Registry

/-! ## Schemas -/

namespace Description

theorem id_le_trans (a b c : Message) :
    decide (a.id ≤ b.id) = true → decide (b.id ≤ c.id) = true → decide (a.id ≤ c.id) = true := by
  simpa using UInt16.le_trans

theorem id_le_total (a b : Message) : (decide (a.id ≤ b.id) || decide (b.id ≤ a.id)) = true := by
  simpa using UInt16.le_total a.id b.id

theorem perm_sorted (d : Description) : d.sorted.Perm d.messages := List.mergeSort_perm ..

theorem pairwise_sorted (d : Description) : d.sorted.Pairwise fun a b => a.id ≤ b.id :=
  (List.pairwise_mergeSort id_le_trans id_le_total _).imp of_decide_eq_true

theorem ascending_sorted {d : Description} (hids : (d.messages.map Message.id).Nodup) :
    d.sorted.Pairwise fun a b => a.id < b.id := by
  have hdistinct : d.sorted.Pairwise fun a b => a.id ≠ b.id :=
    List.pairwise_map.mp ((d.perm_sorted.map _).nodup_iff.mpr hids)
  exact d.pairwise_sorted.imp₂ (fun _ _ => UInt16.lt_of_le_of_ne) hdistinct

end Description

namespace Schema

/-- **A schema finds the message types that its description declares.** -/
theorem message?_eq (s : Schema) (id : UInt16) : s.message? id = s.description.message? id := by
  have hids := s.wellFormed.distinctIds
  exact find?_id_congr (Registry.perm_ofMessages hids) s.registry.distinctIds id

/-- **A schema lists its message types in the order in which they are hashed.** -/
theorem messages_eq (s : Schema) : s.messages = s.description.sorted := by
  have hids := s.wellFormed.distinctIds
  exact eq_of_ascending ((Registry.perm_ofMessages hids).trans s.description.perm_sorted.symm)
    s.registry.ascending (Description.ascending_sorted hids)

/-- Registered message types obey the rules. -/
theorem wellFormed_of_message? {s : Schema} {id : UInt16} {m : Message}
    (h : s.message? id = some m) : m.WellFormed :=
  s.wellFormed.messages m (Registry.mem_of_mem_ofMessages (List.mem_of_find?_eq_some h))

end Schema

end CommandLink
