import CommandLink.Packet.Codec
import CommandLink.Proofs.Record.RoundTrip
import Mathlib.Data.List.Forall2

/-!
# Batches of records

The two loops of a packet, over the records of a batch and over the pieces of a body, are one loop:
every element is translated and the first refusal is reported with its index
(`mapM_zipIdx_eq_ok`, `mapM_zipIdx_eq_error`). `pieces_flatten` and `flatten_pieces` say that
cutting into pieces and joining them are inverse to each other.

* `decodeRecords_encodeRecords`, `decodeRecords_encodeRecords_lost`: the records of a body that was
  encoded are read back in their canonical form, or refused for the first one with a lost field.
* `encodeRecords_decodeRecords`: records that were read are written as the bytes they were read
  from.
-/

namespace CommandLink

namespace Packet

/-! ## Translating with an index -/

section Each

variable {α β ε δ : Type} {f : α → Except δ β} (wrap : Nat → δ → ε)

theorem mapM_zipIdx_cons {a : α} {b : β} (h : f a = .ok b) (l : List α) (k : Nat) :
    ((a :: l).zipIdx k).mapM (fun p => (f p.1).mapError (wrap p.2)) =
      ((l.zipIdx (k + 1)).mapM (fun p => (f p.1).mapError (wrap p.2))).map (b :: ·) := by
  rw [List.zipIdx_cons, List.mapM_cons, h]
  rfl

theorem mapM_zipIdx_cons_error {a : α} {reason : δ} (h : f a = .error reason) (l : List α)
    (k : Nat) : ((a :: l).zipIdx k).mapM (fun p => (f p.1).mapError (wrap p.2)) =
      .error (wrap k reason) := by
  rw [List.zipIdx_cons, List.mapM_cons, h]
  rfl

/-- The loop succeeds when every element is translated. -/
theorem mapM_zipIdx_eq_ok {l : List α} {k : Nat} {bs : List β} :
    (l.zipIdx k).mapM (fun p => (f p.1).mapError (wrap p.2)) = .ok bs ↔
      List.Forall₂ (fun a b => f a = .ok b) l bs := by
  induction l generalizing k bs with
  | nil =>
    rw [List.zipIdx_nil, List.mapM_nil, List.forall₂_nil_left_iff]
    exact ⟨fun h => (Except.ok.inj h).symm, fun h => congrArg Except.ok h.symm⟩
  | cons a l ih =>
    rw [List.forall₂_cons_left_iff]
    cases ha : f a with
    | error reason =>
      rw [mapM_zipIdx_cons_error wrap ha]
      constructor
      · intro h; cases h
      · rintro ⟨b, l', hb, -⟩; cases hb
    | ok b =>
      rw [mapM_zipIdx_cons wrap ha]
      constructor
      · intro h
        cases hl : (l.zipIdx (k + 1)).mapM (fun p => (f p.1).mapError (wrap p.2)) with
        | error e => rw [hl] at h; cases h
        | ok bs' =>
          rw [hl] at h
          cases h
          exact ⟨b, bs', rfl, ih.mp hl, rfl⟩
      · rintro ⟨b', bs', hb, hl, rfl⟩
        cases hb
        rw [ih.mpr hl]
        rfl

/-- The loop is refused for the first element that is refused. -/
theorem mapM_zipIdx_eq_error {l : List α} {k i : Nat} (hi : i < l.length) {reason : δ}
    (hfirst : ∀ j (hj : j < i), ∃ b, f l[j] = .ok b) (hf : f l[i] = .error reason) :
    (l.zipIdx k).mapM (fun p => (f p.1).mapError (wrap p.2)) = .error (wrap (k + i) reason) := by
  induction l generalizing k i with
  | nil => cases hi
  | cons a l ih =>
    cases i with
    | zero => exact mapM_zipIdx_cons_error wrap hf l k
    | succ i =>
      obtain ⟨b, hb⟩ := hfirst 0 (Nat.succ_pos i)
      rw [List.getElem_cons_zero] at hb
      rw [mapM_zipIdx_cons wrap hb, ih (Nat.lt_of_succ_lt_succ hi)
        (fun j hj => hfirst (j + 1) (Nat.succ_lt_succ hj)) hf, Nat.add_right_comm k 1 i]
      rfl

/-- A refused loop is refused for the first element that is refused, and with its index. -/
theorem mapM_zipIdx_eq_error_iff {l : List α} {k : Nat} {e : ε} :
    (l.zipIdx k).mapM (fun p => (f p.1).mapError (wrap p.2)) = .error e ↔
      ∃ i a reason, l[i]? = some a ∧ f a = .error reason ∧ e = wrap (k + i) reason ∧
        ∀ j b, j < i → l[j]? = some b → ∃ c, f b = .ok c := by
  constructor
  · intro h
    induction l generalizing k with
    | nil => cases h
    | cons a l ih =>
      cases ha : f a with
      | error reason =>
        rw [mapM_zipIdx_cons_error wrap ha] at h
        cases h
        exact ⟨0, a, reason, rfl, ha, rfl, nofun⟩
      | ok c =>
        rw [mapM_zipIdx_cons wrap ha] at h
        cases hl : (l.zipIdx (k + 1)).mapM (fun p => (f p.1).mapError (wrap p.2)) with
        | ok cs => rw [hl] at h; cases h
        | error e' =>
          rw [hl] at h
          cases h
          obtain ⟨i, b, reason, hi, hb, rfl, hfirst⟩ := ih hl
          refine ⟨i + 1, b, reason, hi, hb, by rw [Nat.add_right_comm, Nat.add_assoc], ?_⟩
          intro j b' hj hb'
          cases j with
          | zero =>
            cases hb'
            exact ⟨c, ha⟩
          | succ j => exact hfirst j b' (Nat.lt_of_succ_lt_succ hj) hb'
  · rintro ⟨i, a, reason, ha, hf, rfl, hfirst⟩
    obtain ⟨hi, rfl⟩ := List.getElem?_eq_some_iff.mp ha
    exact mapM_zipIdx_eq_error wrap hi
      (fun j hj => hfirst j _ hj (List.getElem?_eq_getElem (Nat.lt_trans hj hi))) hf

end Each

/-! ## Cutting into pieces -/

theorem piecesOnto_eq (size count : Nat) (bytes : Bytes) (done : List Bytes) :
    piecesOnto size count bytes done = done.reverse ++ pieces size count bytes := by
  induction count generalizing bytes done with
  | zero => exact (List.append_nil _).symm
  | succ count ih =>
    unfold pieces
    simp only [piecesOnto]
    rw [ih, ih _ [bytes.take size], List.reverse_cons, List.append_assoc]
    rfl

theorem pieces_succ (size count : Nat) (bytes : Bytes) :
    pieces size (count + 1) bytes = bytes.take size :: pieces size count (bytes.drop size) :=
  piecesOnto_eq size count (bytes.drop size) [bytes.take size]

/-- What was joined is cut into what it was joined from. -/
theorem pieces_flatten {size : Nat} {parts : List Bytes} (h : ∀ part ∈ parts, part.length = size)
    (rest : Bytes) : pieces size parts.length (parts.flatten ++ rest) = parts := by
  induction parts with
  | nil => rfl
  | cons part parts ih =>
    have hsize := h part (List.mem_cons_self ..)
    rw [List.length_cons, pieces_succ, List.flatten_cons, List.append_assoc,
      List.take_left' hsize, List.drop_left' hsize,
      ih fun p hp => h p (List.mem_cons_of_mem _ hp)]

/-- What was cut joins to the front that it was cut from. -/
theorem flatten_pieces {size count : Nat} {bytes : Bytes} (h : count * size ≤ bytes.length) :
    (pieces size count bytes).flatten = bytes.take (count * size) := by
  induction count generalizing bytes with
  | zero => rw [Nat.zero_mul]; rfl
  | succ count ih =>
    rw [Nat.succ_mul] at h
    rw [pieces_succ, List.flatten_cons, ih (by rw [List.length_drop]; omega), Nat.succ_mul,
      Nat.add_comm (count * size), List.take_add]

theorem length_pieces (size count : Nat) (bytes : Bytes) :
    (pieces size count bytes).length = count := by
  induction count generalizing bytes with
  | zero => rfl
  | succ count ih => rw [pieces_succ, List.length_cons, ih]

theorem length_of_mem_pieces {size count : Nat} {bytes : Bytes} (h : count * size ≤ bytes.length) :
    ∀ piece ∈ pieces size count bytes, piece.length = size := by
  induction count generalizing bytes with
  | zero => intro piece hp; cases hp
  | succ count ih =>
    rw [Nat.succ_mul] at h
    intro piece hp
    rw [pieces_succ] at hp
    rcases List.mem_cons.mp hp with rfl | hp
    · rw [List.length_take]; omega
    · exact ih (by rw [List.length_drop]; omega) piece hp

/-- Bytes behind the pieces do not matter. -/
theorem pieces_append {size count : Nat} {body : Bytes} (h : body.length = count * size)
    (rest : Bytes) : pieces size count (body ++ rest) = pieces size count body := by
  have hle : count * size ≤ body.length := Nat.le_of_eq h.symm
  have hjoin : (pieces size count body).flatten = body := by
    rw [flatten_pieces hle, ← h, List.take_length]
  have := pieces_flatten (length_of_mem_pieces hle) rest
  rwa [length_pieces, hjoin] at this

/-! ## Records of a batch -/

variable {m : Message} {records : List Record} {body : Bytes}

theorem encodeRecords_eq_ok : encodeRecords m records = .ok body ↔
    ∃ parts, List.Forall₂ (fun r b => m.encode r = .ok b) records parts ∧ body = parts.flatten := by
  have hloop (parts : List Bytes) :
      records.zipIdx.mapM (fun p => encodeRecord m p.1 p.2) = .ok parts ↔
        List.Forall₂ (fun r b => m.encode r = .ok b) records parts :=
    mapM_zipIdx_eq_ok EncodeError.ofRecord
  constructor
  · intro h
    change (records.zipIdx.mapM fun p => encodeRecord m p.1 p.2).map List.flatten = .ok body at h
    cases hl : records.zipIdx.mapM fun p => encodeRecord m p.1 p.2 with
    | error e =>
      rw [hl] at h
      cases h
    | ok parts =>
      rw [hl] at h
      cases h
      exact ⟨parts, (hloop parts).mp hl, rfl⟩
  · rintro ⟨parts, hparts, rfl⟩
    exact congrArg (Except.map List.flatten) ((hloop parts).mpr hparts)

/-- Records are refused for the first one that is refused, with its index. -/
theorem encodeRecords_eq_error {cause : EncodeError} :
    encodeRecords m records = .error cause ↔
      ∃ i r reason, records[i]? = some r ∧ m.encode r = .error reason ∧
        cause = .ofRecord i reason ∧
        ∀ j q, j < i → records[j]? = some q → ∃ b, m.encode q = .ok b := by
  have hloop : records.zipIdx.mapM (fun p => encodeRecord m p.1 p.2) = .error cause ↔ _ :=
    mapM_zipIdx_eq_error_iff EncodeError.ofRecord
  simp only [Nat.zero_add] at hloop
  rw [← hloop]
  change (records.zipIdx.mapM fun p => encodeRecord m p.1 p.2).map List.flatten = .error cause ↔ _
  cases records.zipIdx.mapM fun p => encodeRecord m p.1 p.2 with
  | error e => simp [Except.map]
  | ok parts => simp [Except.map]

/-- Every record of an accepted batch is accepted. -/
theorem exists_encode_of_mem (h : encodeRecords m records = .ok body) {r : Record}
    (hr : r ∈ records) : ∃ b, m.encode r = .ok b := by
  obtain ⟨parts, hparts, -⟩ := encodeRecords_eq_ok.mp h
  clear h
  induction hparts with
  | nil => cases hr
  | cons hb _ ih =>
    rcases List.mem_cons.mp hr with rfl | hr
    · exact ⟨_, hb⟩
    · exact ih hr

theorem length_of_encodeRecords (h : encodeRecords m records = .ok body) :
    body.length = records.length * m.wireSize := by
  obtain ⟨parts, hparts, rfl⟩ := encodeRecords_eq_ok.mp h
  clear h
  induction hparts with
  | nil => exact (Nat.zero_mul _).symm
  | cons hb _ ih =>
    rw [List.flatten_cons, List.length_append, Message.length_encode hb, ih, List.length_cons,
      Nat.succ_mul, Nat.add_comm]

/-- The bytes of the first records of a batch stand at the front of its body. -/
theorem encodeRecords_take (h : encodeRecords m records = .ok body) {n : Nat}
    (hn : n ≤ records.length) :
    encodeRecords m (records.take n) = .ok (body.take (n * m.wireSize)) := by
  obtain ⟨parts, hparts, rfl⟩ := encodeRecords_eq_ok.mp h
  have hfront : encodeRecords m (records.take n) = .ok (parts.take n).flatten :=
    encodeRecords_eq_ok.mpr ⟨_, List.forall₂_take n hparts, rfl⟩
  have hlen := length_of_encodeRecords hfront
  rw [List.length_take, Nat.min_eq_left hn] at hlen
  have hsplit : parts.flatten = (parts.take n).flatten ++ (parts.drop n).flatten := by
    rw [← List.flatten_append, List.take_append_drop]
  rw [hfront, hsplit, List.take_left' hlen]

theorem decodeRecords_eq_ok {count : Nat} : decodeRecords m count body = .ok records ↔
    List.Forall₂ (fun b r => m.decode b = .ok r) (pieces m.wireSize count body) records :=
  mapM_zipIdx_eq_ok DecodeError.invalidRecord

/-- Records are refused for the first one that is refused, as invalid. -/
theorem decodeRecords_eq_error {count : Nat} {cause : DecodeError} :
    decodeRecords m count body = .error cause ↔
      ∃ i piece reason, (pieces m.wireSize count body)[i]? = some piece ∧
        m.decode piece = .error reason ∧ cause = .invalidRecord i reason ∧
        ∀ j b, j < i → (pieces m.wireSize count body)[j]? = some b → ∃ r, m.decode b = .ok r := by
  unfold decodeRecords
  rw [mapM_zipIdx_eq_error_iff DecodeError.invalidRecord]
  simp only [Nat.zero_add]

/-- Only the records are read, not what stands behind them. -/
theorem decodeRecords_append {count : Nat} (h : body.length = count * m.wireSize) (rest : Bytes) :
    decodeRecords m count (body ++ rest) = decodeRecords m count body := by
  unfold decodeRecords
  rw [pieces_append h]

/-- The record at `i` is the first of a batch with a lost field, and `f` is that field. -/
structure FirstLost (m : Message) (records : List Record) (i : Nat) (f : Field) : Prop where
  kept : ∀ j r, j < i → records[j]? = some r → m.lostField? r = none
  lost : ∃ r, records[i]? = some r ∧ m.lostField? r = some f

/-- Either no record has a lost field, or there is a first one. -/
theorem exists_firstLost (m : Message) (records : List Record) :
    (∀ r ∈ records, m.lostField? r = none) ∨ ∃ i f, FirstLost m records i f := by
  induction records with
  | nil => exact .inl fun r hr => by cases hr
  | cons r records ih =>
    cases hr : m.lostField? r with
    | some f => exact .inr ⟨0, f, fun j r hj => absurd hj (Nat.not_lt_zero j), r, rfl, hr⟩
    | none =>
      rcases ih with hall | ⟨i, f, hkept, r', hr', hf⟩
      · exact .inl (List.forall_mem_cons.mpr ⟨hr, hall⟩)
      · refine .inr ⟨i + 1, f, fun j q hj hq => ?_, r', hr', hf⟩
        cases j with
        | zero =>
          cases hq
          exact hr
        | succ j => exact hkept j q (Nat.lt_of_succ_lt_succ hj) hq

/-- A body is cut into the bytes of its records. -/
theorem pieces_of_encode {parts : List Bytes}
    (h : List.Forall₂ (fun r b => m.encode r = .ok b) records parts) :
    pieces m.wireSize records.length parts.flatten = parts := by
  have hsize : ∀ part ∈ parts, part.length = m.wireSize := by
    induction h with
    | nil => intro part hp; cases hp
    | cons hb _ ih => exact List.forall_mem_cons.mpr ⟨Message.length_encode hb, ih⟩
  have := pieces_flatten hsize []
  rwa [List.append_nil, ← h.length_eq] at this

/-- **Records that lose nothing are read back in their canonical form.** -/
theorem decodeRecords_encodeRecords (h : encodeRecords m records = .ok body)
    (hkept : ∀ r ∈ records, m.lostField? r = none) :
    decodeRecords m records.length body = .ok (records.map m.canonical) := by
  obtain ⟨parts, hparts, rfl⟩ := encodeRecords_eq_ok.mp h
  rw [decodeRecords_eq_ok, pieces_of_encode hparts]
  clear h
  induction hparts with
  | nil => exact .nil
  | cons hb _ ih =>
    obtain ⟨hr, hkept⟩ := List.forall_mem_cons.mp hkept
    refine .cons ?_ (ih hkept)
    rw [Message.decode_encode hb, hr]

/-- **Records are refused for the first one with a lost field.** -/
theorem decodeRecords_encodeRecords_lost (h : encodeRecords m records = .ok body) {i : Nat}
    {f : Field} (hlost : FirstLost m records i f) :
    decodeRecords m records.length body = .error (.invalidRecord i (.field f.name .nonFinite)) := by
  obtain ⟨parts, hparts, rfl⟩ := encodeRecords_eq_ok.mp h
  obtain ⟨hkept, r, hr, hf⟩ := hlost
  obtain ⟨hi, rfl⟩ := List.getElem?_eq_some_iff.mp hr
  have hlen := hparts.length_eq
  have hi' : i < parts.length := hlen ▸ hi
  have hpart (j : Nat) (hj : j < records.length) (hj' : j < parts.length) :
      m.encode records[j] = .ok parts[j] := hparts.get hj hj'
  have hkeep (j : Nat) (hj : j < i) : ∃ r, m.decode parts[j] = .ok r :=
    ⟨_, by rw [Message.decode_encode (hpart j (by omega) (by omega)),
      hkept j _ hj (List.getElem?_eq_getElem _)]⟩
  have hlose : m.decode parts[i] = .error (.field f.name .nonFinite) := by
    rw [Message.decode_encode (hpart i hi hi'), hf]
  have hloop := mapM_zipIdx_eq_error DecodeError.invalidRecord (k := 0) hi' hkeep hlose
  rw [Nat.zero_add] at hloop
  unfold decodeRecords
  rw [pieces_of_encode hparts]
  exact hloop

/-- **Records that were read are written as the bytes they were read from.** -/
theorem encodeRecords_decodeRecords (hwf : m.WellFormed) {count : Nat}
    (hlen : body.length = count * m.wireSize) (h : decodeRecords m count body = .ok records) :
    records.length = count ∧ encodeRecords m records = .ok body := by
  have hle := Nat.le_of_eq hlen.symm
  have hread := decodeRecords_eq_ok.mp h
  have hsize := length_of_mem_pieces hle
  refine ⟨?_, encodeRecords_eq_ok.mpr ⟨pieces m.wireSize count body, ?_, ?_⟩⟩
  · rw [← hread.length_eq, length_pieces]
  · clear h
    generalize pieces m.wireSize count body = parts at hread hsize
    induction hread with
    | nil => exact .nil
    | cons hr _ ih =>
      obtain ⟨hb, hsize⟩ := List.forall_mem_cons.mp hsize
      exact .cons (Message.encode_decode hwf hb hr) (ih hsize)
  · rw [flatten_pieces hle, ← hlen, List.take_length]

end Packet

end CommandLink
