import CommandLink.Json.Access
import CommandLink.Proofs.Decimal.Numeral
import Mathlib.Data.List.Induction
import Mathlib.Data.List.Perm.Basic

/-!
# Values are read as what they were made of

* `asNat?_ofInt`, `asBinary64?_ofBinary`: a number is read as that number.
* `mapM_eq_some`: a list of values is read back item by item.
* `only?_eq_some`: in an object without repeated keys every member is found under its key.
* `asFields?_ofMembers`: so the members of an object are read by their names.
* `ofEntries_eq`: an object that is made entry by entry has all of them, in some order, if no two have
  the same key.
-/

namespace CommandLink.Json

/-- A natural number below the bound is read as itself. -/
theorem asNat?_ofInt {n bound : Nat} (h : n < bound) : (ofInt n).asNat? bound = some n := by
  have hrange : (0 : Int) ≤ n ∧ (n : Int) < bound := by omega
  unfold ofInt asNat?
  simp only [Numeral.toInt?_ofInt, if_pos hrange, Int.toNat_natCast]

/-- A finite number is a number in JSON, and its numeral is read as it. -/
theorem ofBinary_of_isFinite {x : Binary64} (h : x.isFinite = true) :
    ∃ n : Numeral, ofBinary x = number n ∧ n.round .binary64 = x ∧ n.toInt? = none := by
  refine ⟨_, if_pos h, NumeralStyle.round_numeral (by decide) _ h, ?_⟩
  unfold NumeralStyle.numeral
  exact NumeralStyle.toInt?_json _ _

/-- **A finite number is read as itself**, whatever its size and sign are. -/
theorem asBinary64?_ofBinary {x : Binary64} (h : x.isFinite = true) :
    (ofBinary x).asBinary64? = some x := by
  obtain ⟨n, hn, hround, -⟩ := ofBinary_of_isFinite h
  rw [hn, asBinary64?, hround, if_pos h]

/-- A list is read item by item. -/
theorem mapM_map_eq_some {α β γ : Type} {write : α → β} {read? : β → Option γ} {value : α → γ}
    {items : List α} (h : ∀ a ∈ items, read? (write a) = some (value a)) :
    (items.map write).mapM read? = some (items.map value) := by
  induction items with
  | nil => rfl
  | cons a items ih =>
    obtain ⟨ha, hitems⟩ := List.forall_mem_cons.mp h
    rw [List.map_cons, List.mapM_cons, ha, ih hitems]
    rfl

/-- Items are read back if each of them is. -/
theorem mapM_eq_some {α : Type} {write : α → Json} {read? : Json → Option α} {items : List α}
    (h : ∀ a ∈ items, read? (write a) = some a) : (items.map write).mapM read? = some items := by
  have hread := @mapM_map_eq_some α Json α write read? id items h
  rwa [List.map_id] at hread

theorem keys_eq (members : List (String × Json)) :
    (members.map fun p => (some p.1, p.2)).map Prod.fst = (members.map Prod.fst).map some := by
  simp

/-- Names that differ are keys that differ. -/
theorem nodup_keys {members : List (String × Json)} (hdistinct : (members.map Prod.fst).Nodup) :
    ((members.map fun p => (some p.1, p.2)).map Prod.fst).Nodup := by
  rw [keys_eq, List.Nodup, List.pairwise_map]
  exact hdistinct.imp fun hne heq => hne (Option.some.inj heq)

/-- **Without repeated keys every member is found under its key.** -/
theorem only?_eq_some {members : List (Option String × Json)} {key : String} {value : Json}
    (hdistinct : (members.map Prod.fst).Nodup) (hmem : (some key, value) ∈ members) :
    only? key members = some value := by
  have hfilter : members.filter (·.1 == some key) = [(some key, value)] := by
    induction members with
    | nil => cases hmem
    | cons p members ih =>
      rw [List.map_cons, List.nodup_cons] at hdistinct
      rcases List.mem_cons.mp hmem with rfl | hmem
      · have hnone : members.filter (·.1 == some key) = [] := by
          refine List.filter_eq_nil_iff.mpr fun p hp hkey => hdistinct.1 ?_
          exact List.mem_map.mpr ⟨p, hp, beq_iff_eq.mp hkey⟩
        rw [List.filter_cons, if_pos (beq_self_eq_true (some key)), hnone]
      · have hother : ¬(p.1 == some key) = true := fun hkey => hdistinct.1 <| by
          rw [beq_iff_eq.mp hkey]
          exact List.mem_map.mpr ⟨_, hmem, rfl⟩
        rw [List.filter_cons, if_neg hother, ih hdistinct.2 hmem]
  rw [only?, hfilter]

/-- An object whose members are these, in any order, is read by their names, if no two of them share
one. -/
theorem asFields?_of_perm {members entries : List (String × Json)} (hperm : members.Perm entries)
    (hdistinct : (entries.map Prod.fst).Nodup) {depth : Nat} (hdepth : depth < maxDepth) :
    (ofMembers members).asFields? depth (entries.map Prod.fst) = some (entries.map Prod.snd) := by
  have hkeys : ((members.map fun p => (some p.1, p.2)).map Prod.fst).Nodup :=
    nodup_keys ((hperm.map Prod.fst).nodup_iff.mpr hdistinct)
  have hall : (members.map fun p => (some p.1, p.2)).all (·.1.isSome) = true := by
    simp
  rw [ofMembers, asFields?, if_pos ⟨hdepth, hall⟩]
  refine mapM_map_eq_some fun p hp => ?_
  exact only?_eq_some hkeys (List.mem_map.mpr ⟨p, hperm.mem_iff.mpr hp, rfl⟩)

/-- **The members of an object are read by their names**, if no two of them share one. -/
theorem asFields?_ofMembers {members : List (String × Json)} {names : List String}
    (hnames : members.map Prod.fst = names) (hdistinct : names.Nodup) {depth : Nat}
    (hdepth : depth < maxDepth) :
    (ofMembers members).asFields? depth names = some (members.map Prod.snd) := by
  subst hnames
  exact asFields?_of_perm (.refl _) hdistinct hdepth

/-! ## Entries that are made one after the other -/

theorem perm_enter {key : String} {value : Json} {members : List (String × Json)}
    (hnew : key ∉ members.map Prod.fst) : (enter key value members).Perm ((key, value) :: members) := by
  induction members with
  | nil => exact .refl _
  | cons next rest ih =>
    obtain ⟨hne, hrest⟩ := not_or.mp (mt List.mem_cons.mpr hnew)
    rw [enter]
    split
    · exact .refl _
    · exact ((ih hrest).cons next).trans (.swap ..)

/-- **No entry is lost if no two of them have the same key.** -/
theorem ofEntries_eq {entries : List (String × Json)} (hdistinct : (entries.map Prod.fst).Nodup) :
    ∃ members, ofEntries entries = ofMembers members ∧ members.Perm entries := by
  refine ⟨_, rfl, ?_⟩
  induction entries using List.reverseRecOn with
  | nil => exact .refl _
  | append_singleton entries p ih =>
    have hlast : (entries ++ [p]).Perm (p :: entries) := List.perm_append_singleton p entries
    obtain ⟨hp, hentries⟩ := List.nodup_cons.mp ((hlast.map Prod.fst).nodup_iff.mp hdistinct)
    have hmembers := ih hentries
    have hnew := mt ((hmembers.map Prod.fst).mem_iff.mp) hp
    rw [List.foldl_concat]
    exact (perm_enter hnew).trans ((hmembers.cons p).trans hlast.symm)

end CommandLink.Json
