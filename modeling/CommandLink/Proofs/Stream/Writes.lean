import CommandLink.Stream.Writer

/-!
# What a stream takes

The events of a stream decide beforehand how it answers to so many bytes and a flush
(`WriteScript.answer`): neither the bytes nor the sizes of the pieces matter, and failures that are
repeated are passed over.

* `send_account`: sending bytes answers so, and what the stream takes is their front, all of them if
  nothing is refused. No byte is taken twice.
* `send_of_cut`: a stream that fails in the middle has taken what was before it.
* `exists_of_writePacket`: a batch that was accepted is on the stream as its packet.
-/

namespace CommandLink

/-- How these events answer to so many bytes. A call that takes nothing refuses the others. -/
def WriteEvent.answer : List WriteEvent → (offered : Nat) → Except FrameError Unit
  | _, 0 => .ok ()
  | [], _ + 1 => .ok ()
  | .accept 0 :: _, _ + 1 => .error .connectionClosed
  | .accept (limit + 1) :: rest, offered + 1 => answer rest (offered - limit)
  | .fail kind :: rest, offered + 1 =>
    if kind.isRetriedWrite then answer rest (offered + 1) else .error (.io kind)

/-- How these events answer to a flush. -/
def FlushEvent.answer : List FlushEvent → Except FrameError Unit
  | [] => .ok ()
  | .succeed :: _ => .ok ()
  | .fail kind :: rest => if kind.isRetriedWrite then answer rest else .error (.io kind)

/-- A call takes something or is repeated. -/
def WriteEvent.Takes : WriteEvent → Prop
  | accept limit => limit ≠ 0
  | fail kind => kind.isRetriedWrite = true

/-- A flush succeeds or is repeated. -/
def FlushEvent.Passes : FlushEvent → Prop
  | succeed => True
  | fail kind => kind.isRetriedWrite = true

/-- The stream goes no further: it takes nothing more, or fails in a way that is not passed over. -/
def FrameError.Lasting : FrameError → Prop
  | connectionClosed => True
  | io kind => kind.isRetriedWrite = false
  | _ => False

theorem WriteEvent.lasting_of_answer {events : List WriteEvent} {offered : Nat} {cause : FrameError}
    (hanswer : answer events offered = .error cause) : cause.Lasting := by
  fun_induction answer events offered with
  | case1 => cases hanswer
  | case2 => cases hanswer
  | case3 =>
    cases hanswer
    trivial
  | case4 limit rest offered ih => exact ih hanswer
  | case5 kind rest offered hretried ih => exact ih hanswer
  | case6 kind rest offered hretried =>
    cases hanswer
    exact (Bool.not_eq_true _).mp hretried

theorem FlushEvent.lasting_of_answer {events : List FlushEvent} {cause : FrameError}
    (hanswer : answer events = .error cause) : cause.Lasting := by
  fun_induction answer events with
  | case1 => cases hanswer
  | case2 => cases hanswer
  | case3 kind rest hretried ih => exact ih hanswer
  | case4 kind rest hretried =>
    cases hanswer
    exact (Bool.not_eq_true _).mp hretried

theorem WriteEvent.answer_of_takes {events : List WriteEvent} (htakes : ∀ e ∈ events, e.Takes)
    (offered : Nat) : answer events offered = .ok () := by
  induction events generalizing offered with
  | nil => cases offered <;> rfl
  | cons e rest ih =>
    obtain ⟨htake, hrest⟩ := List.forall_mem_cons.mp htakes
    cases offered with
    | zero => rfl
    | succ offered =>
      cases e with
      | accept limit =>
        obtain ⟨k, rfl⟩ := Nat.exists_eq_add_one_of_ne_zero htake
        exact ih hrest _
      | fail kind =>
        have hretried : kind.isRetriedWrite = true := htake
        rw [answer, if_pos hretried]
        exact ih hrest _

theorem FlushEvent.answer_of_passes {events : List FlushEvent} (hpasses : ∀ e ∈ events, e.Passes) :
    answer events = .ok () := by
  induction events with
  | nil => rfl
  | cons e rest ih =>
    obtain ⟨hpass, hrest⟩ := List.forall_mem_cons.mp hpasses
    cases e with
    | succeed => rfl
    | fail kind =>
      have hretried : kind.isRetriedWrite = true := hpass
      rw [answer, if_pos hretried]
      exact ih hrest

namespace WriteScript

/-- How the stream answers to so many bytes and a flush behind them. -/
def answer (s : WriteScript) (offered : Nat) : Except FrameError Unit :=
  match WriteEvent.answer s.writes offered with
  | .ok () => FlushEvent.answer s.flushes
  | .error cause => .error cause

variable {s next : WriteScript} {offered : Bytes}

/-! ## One call -/

/-- A call that takes nothing settles the answer; otherwise the rest is left to the events behind. -/
theorem write_ok (hne : offered ≠ []) {taken : Nat}
    (hwrite : s.write offered = (.ok taken, next)) :
    WriteEvent.answer s.writes offered.length =
        (if taken = 0 then .error .connectionClosed
          else WriteEvent.answer next.writes (offered.length - taken)) ∧
      next.flushes = s.flushes ∧ next.accepted = s.accepted ++ offered.take taken := by
  obtain ⟨n, hn⟩ := Nat.exists_eq_add_one_of_ne_zero (mt List.eq_nil_of_length_eq_zero hne)
  unfold write at hwrite
  split at hwrite <;> rename_i hwrites <;> cases hwrite
  · refine ⟨?_, rfl, by rw [List.take_length]⟩
    rw [hwrites, hn, Nat.sub_self]
    rfl
  · rename_i limit rest
    refine ⟨?_, rfl, by rw [List.take_eq_take_min]⟩
    rw [hwrites, hn]
    cases limit with
    | zero => rw [Nat.zero_min, if_pos rfl, WriteEvent.answer]
    | succ limit =>
      have hleft : n + 1 - min (limit + 1) (n + 1) = n - limit := by omega
      rw [if_neg (by omega), hleft, WriteEvent.answer]

/-- A call that fails takes nothing, and is passed over or settles the answer. -/
theorem write_error (hne : offered ≠ []) {kind : IoErrorKind}
    (hwrite : s.write offered = (.error kind, next)) :
    WriteEvent.answer s.writes offered.length =
        (if kind.isRetriedWrite then WriteEvent.answer next.writes offered.length
          else .error (.io kind)) ∧
      next.flushes = s.flushes ∧ next.accepted = s.accepted := by
  obtain ⟨n, hn⟩ := Nat.exists_eq_add_one_of_ne_zero (mt List.eq_nil_of_length_eq_zero hne)
  unfold write at hwrite
  split at hwrite <;> rename_i hwrites <;> cases hwrite
  refine ⟨?_, rfl, rfl⟩
  rw [hwrites, hn, WriteEvent.answer]

theorem flush_ok (hflush : s.flush = (.ok (), next)) :
    FlushEvent.answer s.flushes = .ok () ∧ next.accepted = s.accepted := by
  unfold flush at hflush
  split at hflush <;> rename_i hflushes <;> cases hflush <;> exact ⟨by rw [hflushes]; rfl, rfl⟩

theorem flush_error {kind : IoErrorKind} (hflush : s.flush = (.error kind, next)) :
    FlushEvent.answer s.flushes =
        (if kind.isRetriedWrite then FlushEvent.answer next.flushes else .error (.io kind)) ∧
      next.accepted = s.accepted := by
  unfold flush at hflush
  split at hflush <;> rename_i hflushes <;> cases hflush
  exact ⟨by rw [hflushes, FlushEvent.answer], rfl⟩

/-! ## Sending bytes -/

theorem writeAll_of_write_ok (hne : offered ≠ []) {taken : Nat}
    (hwrite : s.write offered = (.ok (taken + 1), next)) :
    s.writeAll offered = next.writeAll (offered.drop (taken + 1)) := by
  rw [writeAll, dif_neg hne]
  split <;> rename_i h <;> rw [hwrite] at h <;> cases h
  rfl

theorem writeAll_of_write_zero (hne : offered ≠ []) (hwrite : s.write offered = (.ok 0, next)) :
    s.writeAll offered = (.error .connectionClosed, next) := by
  rw [writeAll, dif_neg hne]
  split <;> rename_i h <;> rw [hwrite] at h <;> cases h
  rfl

theorem writeAll_of_write_error (hne : offered ≠ []) {kind : IoErrorKind}
    (hwrite : s.write offered = (.error kind, next)) (hlasting : kind.isRetriedWrite = false) :
    s.writeAll offered = (.error (.io kind), next) := by
  rw [writeAll, dif_neg hne]
  split <;> rename_i h <;> rw [hwrite] at h <;> cases h
  rw [hlasting]
  rfl

theorem writeAll_of_write_again (hne : offered ≠ []) {kind : IoErrorKind}
    (hwrite : s.write offered = (.error kind, next)) (hretried : kind.isRetriedWrite = true) :
    s.writeAll offered = next.writeAll offered := by
  rw [writeAll, dif_neg hne]
  split <;> rename_i h <;> rw [hwrite] at h <;> cases h
  rw [if_pos hretried]

theorem flushAll_of_flush_ok (hflush : s.flush = (.ok (), next)) : s.flushAll = (.ok (), next) := by
  rw [flushAll]
  split <;> rename_i h <;> rw [hflush] at h <;> cases h
  rfl

theorem flushAll_of_flush_error {kind : IoErrorKind} (hflush : s.flush = (.error kind, next))
    (hlasting : kind.isRetriedWrite = false) : s.flushAll = (.error (.io kind), next) := by
  rw [flushAll]
  split <;> rename_i h <;> rw [hflush] at h <;> cases h
  rw [hlasting]
  rfl

/-- **What the stream takes is the front of what is offered**, piece by piece. -/
theorem writeAll_account (s : WriteScript) (offered : Bytes) :
    (s.writeAll offered).1 = WriteEvent.answer s.writes offered.length ∧
    (s.writeAll offered).2.flushes = s.flushes ∧ ∃ taken left, offered = taken ++ left ∧
      (s.writeAll offered).2.accepted = s.accepted ++ taken ∧
      ((s.writeAll offered).1 = .ok () → left = []) := by
  fun_induction writeAll s offered with
  | case1 s =>
    refine ⟨by cases s.writes <;> rfl, rfl, [], [], rfl, (List.append_nil _).symm, fun _ => rfl⟩
  | case2 s offered hne next hwrite =>
    obtain ⟨hanswer, hflushes, haccepted⟩ := write_ok hne hwrite
    exact ⟨hanswer.symm, hflushes, [], offered, rfl, haccepted, nofun⟩
  | case3 s offered hne taken next hwrite ih =>
    obtain ⟨hanswer, hflushes, haccepted⟩ := write_ok hne hwrite
    obtain ⟨hanswer', hflushes', more, left, hsplit, haccepted', hleft⟩ := ih
    rw [if_neg (Nat.succ_ne_zero taken), ← List.length_drop] at hanswer
    refine ⟨hanswer'.trans hanswer.symm, hflushes'.trans hflushes,
      offered.take (taken + 1) ++ more, left, ?_, ?_, hleft⟩
    · rw [List.append_assoc, ← hsplit, List.take_append_drop]
    · rw [haccepted', haccepted, List.append_assoc]
  | case4 s offered hne kind next hwrite hretried ih =>
    obtain ⟨hanswer, hflushes, haccepted⟩ := write_error hne hwrite
    rw [if_pos hretried] at hanswer
    rw [hanswer, ← hflushes, ← haccepted]
    exact ih
  | case5 s offered hne kind next hwrite hretried =>
    obtain ⟨hanswer, hflushes, haccepted⟩ := write_error hne hwrite
    rw [if_neg hretried] at hanswer
    exact ⟨hanswer.symm, hflushes, [], offered, rfl, by rw [haccepted, List.append_nil], nofun⟩

/-- Flushing settles the answer and takes nothing. -/
theorem flushAll_account (s : WriteScript) :
    s.flushAll.1 = FlushEvent.answer s.flushes ∧ s.flushAll.2.accepted = s.accepted := by
  fun_induction flushAll s with
  | case1 s next hflush =>
    obtain ⟨hanswer, haccepted⟩ := flush_ok hflush
    exact ⟨hanswer.symm, haccepted⟩
  | case2 s kind next hflush hretried ih =>
    obtain ⟨hanswer, haccepted⟩ := flush_error hflush
    rw [if_pos hretried] at hanswer
    rw [hanswer, ← haccepted]
    exact ih
  | case3 s kind next hflush hretried =>
    obtain ⟨hanswer, haccepted⟩ := flush_error hflush
    rw [if_neg hretried] at hanswer
    exact ⟨hanswer.symm, haccepted⟩

/-- **Sending bytes answers as the events do**, and the stream takes the front of the bytes, all of
them if nothing is refused. -/
theorem send_account (s : WriteScript) (bytes : Bytes) :
    (s.send bytes).1 = s.answer bytes.length ∧ ∃ taken left, bytes = taken ++ left ∧
      (s.send bytes).2.accepted = s.accepted ++ taken ∧ ((s.send bytes).1 = .ok () → left = []) := by
  obtain ⟨hwritten, hflushes, taken, left, hsplit, haccepted, hleft⟩ := writeAll_account s bytes
  unfold send answer
  rw [← hwritten, ← hflushes]
  rcases hall : s.writeAll bytes with ⟨_ | _, next⟩
  · rw [hall] at haccepted
    exact ⟨rfl, taken, left, hsplit, haccepted, nofun⟩
  · obtain ⟨hflushed, hsame⟩ := flushAll_account next
    rw [hall] at haccepted hleft
    exact ⟨hflushed, taken, left, hsplit, hsame.trans haccepted, fun _ => hleft rfl⟩

theorem lasting_of_answer {offered : Nat} {cause : FrameError}
    (hanswer : s.answer offered = .error cause) : cause.Lasting := by
  unfold answer at hanswer
  split at hanswer
  · exact FlushEvent.lasting_of_answer hanswer
  · rename_i hwrites
    cases hanswer
    exact WriteEvent.lasting_of_answer hwrites

/-- A stream that takes some bytes and then fails keeps the front of what it was offered. -/
theorem send_of_cut {limit : Nat} {kind : IoErrorKind} {rest : List WriteEvent}
    (hwrites : s.writes = .accept (limit + 1) :: .fail kind :: rest)
    (hlasting : kind.isRetriedWrite = false) (hlong : limit + 1 < offered.length) :
    s.send offered = (.error (.io kind),
      { s with
        writes := rest
        accepted := s.accepted ++ offered.take (limit + 1)
        writeCalls := s.writeCalls + 1 + 1 }) := by
  have hne : offered ≠ [] := List.ne_nil_of_length_pos (by omega)
  have hleft : offered.drop (limit + 1) ≠ [] := by
    rw [ne_eq, List.drop_eq_nil_iff]
    omega
  have hfirst : s.write offered = (.ok (limit + 1),
      { s with
        writes := .fail kind :: rest
        accepted := s.accepted ++ offered.take (limit + 1)
        writeCalls := s.writeCalls + 1 }) := by
    unfold write
    rw [hwrites]
    simp only [Nat.min_eq_left (Nat.le_of_lt hlong)]
  unfold send
  rw [writeAll_of_write_ok hne hfirst, writeAll_of_write_error hleft rfl hlasting]

/-- A stream without further events takes everything. -/
theorem send_of_free (hwrites : s.writes = []) (hflushes : s.flushes = []) (hne : offered ≠ []) :
    s.send offered = (.ok (),
      { s with
        accepted := s.accepted ++ offered
        writeCalls := s.writeCalls + 1
        flushCalls := s.flushCalls + 1 }) := by
  obtain ⟨n, hn⟩ := Nat.exists_eq_add_one_of_ne_zero (mt List.eq_nil_of_length_eq_zero hne)
  have hwrite : s.write offered = (.ok (n + 1),
      { s with accepted := s.accepted ++ offered, writeCalls := s.writeCalls + 1 }) := by
    unfold write
    rw [hwrites, hn]
  unfold send
  rw [writeAll_of_write_ok hne hwrite, List.drop_of_length_le (Nat.le_of_eq hn), writeAll,
    dif_pos rfl]
  simp only
  rw [flushAll]
  unfold flush
  split <;> simp_all

/-! ## Streams that take everything -/

/-- No call is refused: it takes something or is repeated. -/
structure Willing (s : WriteScript) : Prop where
  writes : ∀ e ∈ s.writes, e.Takes
  flushes : ∀ e ∈ s.flushes, e.Passes

/-- **A willing stream takes everything**, in whatever pieces. -/
theorem Willing.answer (hwilling : s.Willing) (offered : Nat) : s.answer offered = .ok () := by
  rw [WriteScript.answer, WriteEvent.answer_of_takes hwilling.writes]
  exact FlushEvent.answer_of_passes hwilling.flushes

theorem Willing.write (hwilling : s.Willing) {result : Except IoErrorKind Nat}
    (hwrite : s.write offered = (result, next)) : next.Willing := by
  unfold WriteScript.write at hwrite
  split at hwrite <;> rename_i hwrites <;> cases hwrite
  · exact ⟨hwilling.writes, hwilling.flushes⟩
  · exact ⟨(List.forall_mem_cons.mp (hwrites ▸ hwilling.writes)).2, hwilling.flushes⟩
  · exact ⟨(List.forall_mem_cons.mp (hwrites ▸ hwilling.writes)).2, hwilling.flushes⟩

theorem Willing.flush (hwilling : s.Willing) {result : Except IoErrorKind Unit}
    (hflush : s.flush = (result, next)) : next.Willing := by
  unfold WriteScript.flush at hflush
  split at hflush <;> rename_i hflushes <;> cases hflush
  · exact ⟨hwilling.writes, hwilling.flushes⟩
  · exact ⟨hwilling.writes, (List.forall_mem_cons.mp (hflushes ▸ hwilling.flushes)).2⟩
  · exact ⟨hwilling.writes, (List.forall_mem_cons.mp (hflushes ▸ hwilling.flushes)).2⟩

/-- A willing stream stays willing. -/
theorem Willing.send (hwilling : s.Willing) (bytes : Bytes) : (s.send bytes).2.Willing := by
  have hwritten : (s.writeAll bytes).2.Willing := by
    fun_induction WriteScript.writeAll s bytes with
    | case1 s => exact hwilling
    | case2 s offered hne next hwrite => exact hwilling.write hwrite
    | case3 s offered hne taken next hwrite ih => exact ih (hwilling.write hwrite)
    | case4 s offered hne kind next hwrite hretried ih => exact ih (hwilling.write hwrite)
    | case5 s offered hne kind next hwrite hretried => exact hwilling.write hwrite
  have hflushed (t : WriteScript) (ht : t.Willing) : t.flushAll.2.Willing := by
    fun_induction WriteScript.flushAll t with
    | case1 t next hflush => exact ht.flush hflush
    | case2 t kind next hflush hretried ih => exact ih (ht.flush hflush)
    | case3 t kind next hflush hretried => exact ht.flush hflush
  unfold WriteScript.send
  rcases hall : s.writeAll bytes with ⟨_ | _, next⟩
  · rw [hall] at hwritten
    exact hwritten
  · rw [hall] at hwritten
    exact hflushed next hwritten

end WriteScript

namespace Writer

variable {w next : Writer}

theorem writeRaw_fst (w : Writer) (bytes : Bytes) :
    (w.writeRaw bytes).1 = w.stream.answer bytes.length :=
  (w.stream.send_account bytes).1

/-- Bytes that were written without an error are all on the stream. -/
theorem accepted_of_writeRaw {bytes : Bytes} (hwrite : w.writeRaw bytes = (.ok (), next)) :
    next.schema = w.schema ∧ next.config = w.config ∧
      next.stream.accepted = w.stream.accepted ++ bytes := by
  obtain ⟨-, taken, left, hsplit, haccepted, hleft⟩ := w.stream.send_account bytes
  obtain ⟨hsent, rfl⟩ := Prod.mk.inj hwrite
  obtain rfl := hleft hsent
  rw [List.append_nil] at hsplit
  exact ⟨rfl, rfl, hsplit ▸ haccepted⟩

/-- **A batch that was accepted is on the stream as its packet**, once and behind what was there. -/
theorem exists_of_writePacket {typeId : UInt16} {records : List Record} {flags : Flags}
    (hwrite : w.writePacket typeId records flags = (.ok (), next)) :
    ∃ bytes, Packet.encode w.schema typeId records flags = .ok bytes ∧ next.schema = w.schema ∧
      next.stream.accepted = w.stream.accepted ++ bytes := by
  unfold writePacket at hwrite
  split at hwrite
  · cases hwrite
  cases hencode : Packet.encode w.schema typeId records flags with
  | error cause =>
    rw [hencode] at hwrite
    cases hwrite
  | ok bytes =>
    rw [hencode] at hwrite
    obtain ⟨hschema, -, haccepted⟩ := accepted_of_writeRaw hwrite
    exact ⟨bytes, rfl, hschema, haccepted⟩

theorem willing_of_writeRaw {bytes : Bytes} {result : Except FrameError Unit}
    (hwilling : w.stream.Willing) (hwrite : w.writeRaw bytes = (result, next)) :
    next.stream.Willing := by
  obtain ⟨-, rfl⟩ := Prod.mk.inj hwrite
  exact hwilling.send bytes

/-- A willing stream takes every batch that has a packet and is not too large. -/
theorem exists_writePacket {typeId : UInt16} {records : List Record} {flags : Flags} {bytes : Bytes}
    (hwilling : w.stream.Willing) (hlimit : records.length ≤ w.config.maxRecords)
    (hencode : Packet.encode w.schema typeId records flags = .ok bytes) :
    ∃ next, w.writePacket typeId records flags = (.ok (), next) ∧ next.stream.Willing ∧
      next.schema = w.schema ∧ next.config = w.config := by
  have hanswer := w.writeRaw_fst bytes
  rw [hwilling.answer] at hanswer
  refine ⟨(w.writeRaw bytes).2, ?_, hwilling.send bytes, rfl, rfl⟩
  unfold writePacket
  rw [if_neg (Nat.not_lt.mpr hlimit), hencode]
  exact Prod.ext hanswer rfl

end Writer

end CommandLink
