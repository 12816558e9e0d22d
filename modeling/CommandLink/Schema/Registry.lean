import CommandLink.Schema.Description

/-!
# Registries

The message types of a schema by their ids. A registry is built by entering the message types of a
description one after the other; one that has the id of an earlier one takes its place. It lists them
in ascending order of their ids, no two with the same.
-/

namespace CommandLink

/-- Message types in strictly ascending order of their ids. -/
structure Registry where
  messages : List Message
  ascending : messages.Pairwise fun a b => a.id < b.id
deriving DecidableEq, Repr

namespace Registry

/-- The registry without message types. -/
def empty : Registry := ⟨[], .nil⟩

/-- Ascending message types with `m` at its place among them; one with the same id makes room. -/
def insertInto (m : Message) : List Message → List Message
  | [] => [m]
  | n :: rest =>
    if m.id < n.id then m :: n :: rest
    else if m.id = n.id then m :: rest
    else n :: insertInto m rest

theorem mem_insertInto {m a : Message} {ms : List Message} (h : a ∈ insertInto m ms) :
    a = m ∨ a ∈ ms := by
  induction ms with
  | nil => exact .inl (List.mem_singleton.mp h)
  | cons n rest ih =>
    simp only [insertInto] at h
    split at h
    · exact List.mem_cons.mp h
    · split at h
      · exact (List.mem_cons.mp h).imp_right (List.mem_cons_of_mem n)
      · rcases List.mem_cons.mp h with rfl | h
        · exact .inr (List.mem_cons_self ..)
        · exact (ih h).imp_right (List.mem_cons_of_mem n)

theorem ascending_insertInto (m : Message) {ms : List Message}
    (h : ms.Pairwise fun a b => a.id < b.id) :
    (insertInto m ms).Pairwise fun a b => a.id < b.id := by
  induction ms with
  | nil => exact List.pairwise_singleton _ m
  | cons n rest ih =>
    obtain ⟨hn, hrest⟩ := List.pairwise_cons.mp h
    simp only [insertInto]
    split
    · rename_i hlt
      refine List.pairwise_cons.mpr ⟨fun a ha => ?_, h⟩
      rcases List.mem_cons.mp ha with rfl | ha
      · exact hlt
      · exact UInt16.lt_trans hlt (hn a ha)
    · rename_i hge
      split
      · rename_i heq
        exact List.pairwise_cons.mpr ⟨fun a ha => heq ▸ hn a ha, hrest⟩
      · rename_i hne
        refine List.pairwise_cons.mpr ⟨fun a ha => ?_, ih hrest⟩
        rcases mem_insertInto ha with rfl | ha
        · exact UInt16.lt_of_le_of_ne (UInt16.not_lt.mp hge) (Ne.symm hne)
        · exact hn a ha

/-- The registry with `m` entered. -/
def enter (r : Registry) (m : Message) : Registry :=
  ⟨insertInto m r.messages, ascending_insertInto m r.ascending⟩

/-- The registry of message types that are entered one after the other. -/
def ofMessages (ms : List Message) : Registry := ms.foldl enter empty

/-- The message type with the given id. -/
def get? (r : Registry) (id : UInt16) : Option Message := r.messages.find? (·.id == id)

/-- Whether there is a message type with the given id. -/
def contains (r : Registry) (id : UInt16) : Bool := r.messages.any (·.id == id)

/-- The registered ids, ascending. -/
def ids (r : Registry) : List UInt16 := r.messages.map Message.id

end Registry

end CommandLink
