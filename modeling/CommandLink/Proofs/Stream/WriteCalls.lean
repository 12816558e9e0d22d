import CommandLink.Proofs.Stream.Writes

/-!
# The calls that a packet costs

Sending bytes is a row of calls on the stream (`WriteCall`, `WriteScript.Serves`): write calls that
each offer what is left of the bytes, and once nothing is left, flush calls. A call that is interrupted
or would block is made again (`Pushes`, `Waits`).

* `send_calls`: sending makes such calls (`Sent`), and what the stream takes is what they took.
* `Pushes.split`, `Pushes.suffix`: pieces that are taken are the bytes in order, without a gap and
  without a repetition, however the calls that are made again lie among them.
* `Calmed.send`: a stream without the failures that are passed over answers in the same way and takes
  the same bytes.
-/

namespace CommandLink

/-- A call on a stream to write to, with its answer. -/
inductive WriteCall where
  | write (offered : Bytes) (answer : Except IoErrorKind Nat)
  | flush (answer : Except IoErrorKind Unit)

/-- The bytes that the stream took. -/
def WriteCall.taken : WriteCall → Bytes
  | write offered (.ok n) => offered.take n
  | write _ (.error _) => []
  | flush _ => []

/-- A stream answers to these calls so, one after the other, and is then like that. -/
inductive WriteScript.Serves : WriteScript → List WriteCall → WriteScript → Prop where
  | nil (s : WriteScript) : Serves s [] s
  | write {s next last : WriteScript} {offered : Bytes} {answer : Except IoErrorKind Nat}
      {calls : List WriteCall} (call : s.write offered = (answer, next))
      (more : Serves next calls last) : Serves s (.write offered answer :: calls) last
  | flush {s next last : WriteScript} {answer : Except IoErrorKind Unit} {calls : List WriteCall}
      (call : s.flush = (answer, next)) (more : Serves next calls last) :
      Serves s (.flush answer :: calls) last

/-- Write calls that each offer all that is left of some bytes. The stream takes some of what is
offered, or the call is made again. -/
inductive Pushes : (offered : Bytes) → List WriteCall → (left : Bytes) → Prop where
  | nil (offered : Bytes) : Pushes offered [] offered
  | took {offered left : Bytes} {n : Nat} {calls : List WriteCall} (some : 0 < n)
      (fits : n ≤ offered.length) (more : Pushes (offered.drop n) calls left) :
      Pushes offered (.write offered (.ok n) :: calls) left
  | again {offered left : Bytes} {kind : IoErrorKind} {calls : List WriteCall} (some : offered ≠ [])
      (retried : kind.isRetriedWrite = true) (more : Pushes offered calls left) :
      Pushes offered (.write offered (.error kind) :: calls) left

/-- Flush calls that are all made again. -/
def Waits (calls : List WriteCall) : Prop :=
  ∀ c ∈ calls, ∃ kind : IoErrorKind, kind.isRetriedWrite = true ∧ c = .flush (.error kind)

/-- How sending some bytes ended, by which calls, and which of the bytes the stream took. -/
inductive Sent (bytes : Bytes) : Except FrameError Unit → List WriteCall → (taken : Bytes) → Prop where
  | flushed {writes waits : List WriteCall} (pushes : Pushes bytes writes [])
      (again : Waits waits) : Sent bytes (.ok ()) (writes ++ (waits ++ [.flush (.ok ())])) bytes
  | unflushed {writes waits : List WriteCall} {kind : IoErrorKind} (pushes : Pushes bytes writes [])
      (again : Waits waits) (lasting : kind.isRetriedWrite = false) :
      Sent bytes (.error (.io kind)) (writes ++ (waits ++ [.flush (.error kind)])) bytes
  | closed {writes : List WriteCall} {taken left : Bytes} (split : bytes = taken ++ left)
      (pushes : Pushes bytes writes left) (short : left ≠ []) :
      Sent bytes (.error .connectionClosed) (writes ++ [.write left (.ok 0)]) taken
  | failed {writes : List WriteCall} {taken left : Bytes} {kind : IoErrorKind}
      (split : bytes = taken ++ left) (pushes : Pushes bytes writes left) (short : left ≠ [])
      (lasting : kind.isRetriedWrite = false) :
      Sent bytes (.error (.io kind)) (writes ++ [.write left (.error kind)]) taken

/-! ## Rows of calls -/

section Rows

variable {s next last : WriteScript} {calls more : List WriteCall} {bytes offered left taken : Bytes}

theorem WriteScript.Serves.append (hcalls : s.Serves calls next) (hmore : next.Serves more last) :
    s.Serves (calls ++ more) last := by
  induction hcalls with
  | nil s => exact hmore
  | write call _ ih => exact .write call (ih hmore)
  | flush call _ ih => exact .flush call (ih hmore)

/-- **The stream has the bytes that it took**, call by call. -/
theorem WriteScript.Serves.accepted (hcalls : s.Serves calls next) :
    next.accepted = s.accepted ++ calls.flatMap WriteCall.taken := by
  induction hcalls with
  | nil s => simp
  | @write s next last offered answer calls call more ih =>
    have hcall : next.accepted = s.accepted ++ (WriteCall.write offered answer).taken := by
      unfold WriteScript.write at call
      split at call <;> cases call
      · rw [WriteCall.taken, List.take_length]
      · rw [WriteCall.taken, List.take_eq_take_min]
      · rw [WriteCall.taken, List.append_nil]
    rw [ih, hcall, List.flatMap_cons, List.append_assoc]
  | @flush s next last answer calls call more ih =>
    have hcall : next.accepted = s.accepted := by
      unfold WriteScript.flush at call
      split at call <;> cases call <;> rfl
    rw [ih, hcall, List.flatMap_cons, WriteCall.taken, List.nil_append]

/-- **The bytes are what was taken and what is left**: none is dropped or taken twice. -/
theorem Pushes.split (hpushes : Pushes offered calls left) :
    offered = calls.flatMap WriteCall.taken ++ left := by
  induction hpushes with
  | nil offered => simp
  | @took offered left n calls some fits more ih =>
    rw [List.flatMap_cons, WriteCall.taken, List.append_assoc, ← ih, List.take_append_drop]
  | again some retried more ih => rwa [List.flatMap_cons, WriteCall.taken, List.nil_append]

/-- Nothing is offered but the end of the bytes, and nothing is flushed. -/
theorem Pushes.suffix (hpushes : Pushes offered calls left) {c : WriteCall} (hc : c ∈ calls) :
    ∃ piece answer, c = .write piece answer ∧ piece <:+ offered := by
  induction hpushes with
  | nil offered => cases hc
  | took some fits more ih =>
    rcases List.mem_cons.mp hc with rfl | hc
    · exact ⟨_, _, rfl, List.suffix_rfl⟩
    · obtain ⟨piece, answer, rfl, hpiece⟩ := ih hc
      exact ⟨piece, answer, rfl, hpiece.trans (List.drop_suffix ..)⟩
  | again some retried more ih =>
    rcases List.mem_cons.mp hc with rfl | hc
    · exact ⟨_, _, rfl, List.suffix_rfl⟩
    · exact ih hc

theorem Waits.cons {kind : IoErrorKind} (hretried : kind.isRetriedWrite = true)
    (hwaits : Waits calls) : Waits (.flush (.error kind) :: calls) :=
  List.forall_mem_cons.mpr ⟨⟨kind, hretried, rfl⟩, hwaits⟩

/-- A call that is made again takes nothing. -/
theorem Waits.flatMap_taken (hwaits : Waits calls) : calls.flatMap WriteCall.taken = [] := by
  rw [List.flatMap_eq_nil_iff]
  intro c hc
  obtain ⟨kind, -, rfl⟩ := hwaits c hc
  rfl

variable {result : Except FrameError Unit}

/-- What was taken is what the calls took. -/
theorem Sent.flatMap_taken (hsent : Sent bytes result calls taken) :
    calls.flatMap WriteCall.taken = taken := by
  cases hsent with
  | flushed pushes again => simp [pushes.split, again.flatMap_taken, WriteCall.taken]
  | unflushed pushes again lasting => simp [pushes.split, again.flatMap_taken, WriteCall.taken]
  | closed split pushes short =>
    have hwrites := List.append_cancel_right (pushes.split.symm.trans split)
    simpa [WriteCall.taken] using hwrites
  | failed split pushes short lasting =>
    have hwrites := List.append_cancel_right (pushes.split.symm.trans split)
    simpa [WriteCall.taken] using hwrites

/-- Every write call offers the end of the bytes. -/
theorem Sent.suffix (hsent : Sent bytes result calls taken) {piece : Bytes}
    {answer : Except IoErrorKind Nat} (hcall : .write piece answer ∈ calls) : piece <:+ bytes := by
  have hpushed {writes : List WriteCall} {left : Bytes} (hpushes : Pushes bytes writes left)
      (hmem : .write piece answer ∈ writes) : piece <:+ bytes := by
    obtain ⟨_, _, ⟨⟩, hpiece⟩ := hpushes.suffix hmem
    exact hpiece
  have hflushes {waits : List WriteCall} {last : Except IoErrorKind Unit} (hwaits : Waits waits)
      (hmem : .write piece answer ∈ waits ++ [.flush last]) : False := by
    rcases List.mem_append.mp hmem with hmem | hmem
    · obtain ⟨_, -, ⟨⟩⟩ := hwaits _ hmem
    · cases List.mem_singleton.mp hmem
  cases hsent with
  | flushed pushes again =>
    exact (List.mem_append.mp hcall).elim (hpushed pushes) fun hmem => (hflushes again hmem).elim
  | unflushed pushes again lasting =>
    exact (List.mem_append.mp hcall).elim (hpushed pushes) fun hmem => (hflushes again hmem).elim
  | closed split pushes short =>
    rcases List.mem_append.mp hcall with hmem | hmem
    · exact hpushed pushes hmem
    · cases List.mem_singleton.mp hmem
      exact ⟨_, split.symm⟩
  | failed split pushes short lasting =>
    rcases List.mem_append.mp hcall with hmem | hmem
    · exact hpushed pushes hmem
    · cases List.mem_singleton.mp hmem
      exact ⟨_, split.symm⟩

end Rows

/-! ## Sending -/

namespace WriteScript

variable {s next t : WriteScript} {offered : Bytes}

/-- How the write calls end: nothing is left, or a last call goes no further. -/
inductive Stops : (left : Bytes) → Except FrameError Unit → List WriteCall → Prop where
  | done : Stops [] (.ok ()) []
  | closed {left : Bytes} (short : left ≠ []) :
      Stops left (.error .connectionClosed) [.write left (.ok 0)]
  | failed {left : Bytes} {kind : IoErrorKind} (short : left ≠ [])
      (lasting : kind.isRetriedWrite = false) :
      Stops left (.error (.io kind)) [.write left (.error kind)]

/-- A stream takes no more than what is offered. -/
theorem le_of_write_ok {n : Nat} (hwrite : s.write offered = (.ok n, next)) :
    n ≤ offered.length := by
  unfold write at hwrite
  split at hwrite <;> cases hwrite
  · exact Nat.le_refl _
  · exact Nat.min_le_right ..

/-- **The write calls**: they push the bytes on until nothing is left or one goes no further. -/
theorem writeAll_calls (s : WriteScript) (offered : Bytes) : ∃ writes left stop,
    Pushes offered writes left ∧ Stops left (s.writeAll offered).1 stop ∧
      s.Serves (writes ++ stop) (s.writeAll offered).2 := by
  fun_induction writeAll s offered with
  | case1 s => exact ⟨[], [], [], .nil _, .done, .nil s⟩
  | case2 s offered hne next hwrite =>
    exact ⟨[], offered, _, .nil _, .closed hne, .write hwrite (.nil next)⟩
  | case3 s offered hne n next hwrite ih =>
    obtain ⟨writes, left, stop, hpushes, hstops, hserves⟩ := ih
    exact ⟨_, left, stop, .took n.succ_pos (le_of_write_ok hwrite) hpushes, hstops,
      .write hwrite hserves⟩
  | case4 s offered hne kind next hwrite hretried ih =>
    obtain ⟨writes, left, stop, hpushes, hstops, hserves⟩ := ih
    exact ⟨_, left, stop, .again hne hretried hpushes, hstops, .write hwrite hserves⟩
  | case5 s offered hne kind next hwrite hretried =>
    exact ⟨[], offered, _, .nil _, .failed hne ((Bool.not_eq_true _).mp hretried),
      .write hwrite (.nil next)⟩

/-- **The flush calls**: they are made again until one succeeds or fails for good. -/
theorem flushAll_calls (s : WriteScript) : ∃ waits answer, Waits waits ∧
    s.Serves (waits ++ [.flush answer]) s.flushAll.2 ∧ s.flushAll.1 = answer.mapError .io ∧
      ∀ kind, answer = .error kind → kind.isRetriedWrite = false := by
  fun_induction flushAll s with
  | case1 s next hflush =>
    refine ⟨[], .ok (), List.forall_mem_nil _, .flush hflush (.nil next), rfl, ?_⟩
    rintro _ ⟨⟩
  | case2 s kind next hflush hretried ih =>
    obtain ⟨waits, answer, hwaits, hserves, hanswer, hlasting⟩ := ih
    exact ⟨_, answer, hwaits.cons hretried, .flush hflush hserves, hanswer, hlasting⟩
  | case3 s kind next hflush hretried =>
    refine ⟨[], .error kind, List.forall_mem_nil _, .flush hflush (.nil next), rfl, ?_⟩
    rintro _ ⟨⟩
    exact (Bool.not_eq_true _).mp hretried

/-- **Sending bytes** makes the calls that the bytes need, and no others. -/
theorem send_calls (s : WriteScript) (bytes : Bytes) : ∃ calls taken,
    Sent bytes (s.send bytes).1 calls taken ∧ s.Serves calls (s.send bytes).2 := by
  obtain ⟨writes, left, stop, hpushes, hstops, hserves⟩ := s.writeAll_calls bytes
  unfold send
  rcases hall : s.writeAll bytes with ⟨written, next⟩
  rw [hall] at hstops hserves
  cases hstops with
  | done =>
    rw [List.append_nil] at hserves
    obtain ⟨waits, answer, hwaits, hflushes, hanswer, hlasting⟩ := next.flushAll_calls
    refine ⟨_, bytes, ?_, hserves.append hflushes⟩
    simp only [hanswer]
    cases answer with
    | ok => exact .flushed hpushes hwaits
    | error kind => exact .unflushed hpushes hwaits (hlasting kind rfl)
  | closed short => exact ⟨_, _, .closed hpushes.split hpushes short, hserves⟩
  | failed short lasting => exact ⟨_, _, .failed hpushes.split hpushes short lasting, hserves⟩

end WriteScript

/-! ## Failures that are passed over -/

/-- A write call that meets this is made again. -/
def WriteEvent.isPassedOver : WriteEvent → Bool
  | accept _ => false
  | fail kind => kind.isRetriedWrite

/-- A flush call that meets this is made again. -/
def FlushEvent.isPassedOver : FlushEvent → Bool
  | succeed => false
  | fail kind => kind.isRetriedWrite

namespace WriteScript

/-- The second stream is like the first one, without the failures that are passed over. -/
structure Calmed (s t : WriteScript) : Prop where
  writes : t.writes = s.writes.filter (!·.isPassedOver)
  flushes : t.flushes = s.flushes.filter (!·.isPassedOver)
  accepted : t.accepted = s.accepted

variable {s next t : WriteScript} {offered : Bytes}

/-- **One write call**: it is made again and the calmed stream waits, or both answer alike. -/
theorem Calmed.write {answer : Except IoErrorKind Nat} (hcalmed : Calmed s t)
    (hwrite : s.write offered = (answer, next)) :
    (∃ kind, answer = .error kind ∧ kind.isRetriedWrite = true ∧ Calmed next t) ∨
      (∀ kind, answer = .error kind → kind.isRetriedWrite = false) ∧
        ∃ after, t.write offered = (answer, after) ∧ Calmed next after := by
  obtain ⟨hwrites, hflushes, haccepted⟩ := hcalmed
  unfold WriteScript.write at hwrite ⊢
  split at hwrite <;> rename_i hevents <;> cases hwrite <;> rw [hevents] at hwrites
  · simp only [List.filter_nil] at hwrites
    refine .inr ⟨nofun, _, by rw [hwrites], ?_⟩
    exact ⟨by simp [hevents], hflushes, congrArg (· ++ offered) haccepted⟩
  · rw [List.filter_cons_of_pos rfl] at hwrites
    refine .inr ⟨nofun, _, by rw [hwrites], ?_⟩
    exact ⟨rfl, hflushes, congrArg (· ++ _) haccepted⟩
  · rename_i kind rest
    cases hretried : kind.isRetriedWrite with
    | true =>
      rw [List.filter_cons_of_neg (by simp [WriteEvent.isPassedOver, hretried])] at hwrites
      exact .inl ⟨kind, rfl, hretried, hwrites, hflushes, haccepted⟩
    | false =>
      rw [List.filter_cons_of_pos (by simp [WriteEvent.isPassedOver, hretried])] at hwrites
      refine .inr ⟨by rintro _ ⟨⟩; exact hretried, _, by rw [hwrites], ?_⟩
      exact ⟨rfl, hflushes, haccepted⟩

/-- **One flush call** in the same way. -/
theorem Calmed.flush {answer : Except IoErrorKind Unit} (hcalmed : Calmed s t)
    (hflush : s.flush = (answer, next)) :
    (∃ kind, answer = .error kind ∧ kind.isRetriedWrite = true ∧ Calmed next t) ∨
      (∀ kind, answer = .error kind → kind.isRetriedWrite = false) ∧
        ∃ after, t.flush = (answer, after) ∧ Calmed next after := by
  obtain ⟨hwrites, hflushes, haccepted⟩ := hcalmed
  unfold WriteScript.flush at hflush ⊢
  split at hflush <;> rename_i hevents <;> cases hflush <;> rw [hevents] at hflushes
  · simp only [List.filter_nil] at hflushes
    refine .inr ⟨nofun, _, by rw [hflushes], ?_⟩
    exact ⟨hwrites, by simp [hevents], haccepted⟩
  · rw [List.filter_cons_of_pos rfl] at hflushes
    refine .inr ⟨nofun, _, by rw [hflushes], ?_⟩
    exact ⟨hwrites, rfl, haccepted⟩
  · rename_i kind rest
    cases hretried : kind.isRetriedWrite with
    | true =>
      rw [List.filter_cons_of_neg (by simp [FlushEvent.isPassedOver, hretried])] at hflushes
      exact .inl ⟨kind, rfl, hretried, hwrites, hflushes, haccepted⟩
    | false =>
      rw [List.filter_cons_of_pos (by simp [FlushEvent.isPassedOver, hretried])] at hflushes
      refine .inr ⟨by rintro _ ⟨⟩; exact hretried, _, by rw [hflushes], ?_⟩
      exact ⟨hwrites, rfl, haccepted⟩

theorem Calmed.writeAll (hcalmed : Calmed s t) (offered : Bytes) :
    (t.writeAll offered).1 = (s.writeAll offered).1 ∧
      Calmed (s.writeAll offered).2 (t.writeAll offered).2 := by
  fun_induction WriteScript.writeAll s offered generalizing t with
  | case1 s =>
    rw [WriteScript.writeAll, dif_pos rfl]
    exact ⟨rfl, hcalmed⟩
  | case2 s offered hne next hwrite =>
    obtain ⟨_, ⟨⟩, -⟩ | ⟨-, after, hafter, hnext⟩ := hcalmed.write hwrite
    rw [writeAll_of_write_zero hne hafter]
    exact ⟨rfl, hnext⟩
  | case3 s offered hne n next hwrite ih =>
    obtain ⟨_, ⟨⟩, -⟩ | ⟨-, after, hafter, hnext⟩ := hcalmed.write hwrite
    rw [writeAll_of_write_ok hne hafter]
    exact ih hnext
  | case4 s offered hne kind next hwrite hretried ih =>
    obtain ⟨_, ⟨⟩, -, hnext⟩ | ⟨hlasting, -⟩ := hcalmed.write hwrite
    · exact ih hnext
    · exact absurd ((hlasting kind rfl).symm.trans hretried) Bool.false_ne_true
  | case5 s offered hne kind next hwrite hretried =>
    obtain ⟨_, ⟨⟩, hagain, -⟩ | ⟨hlasting, after, hafter, hnext⟩ := hcalmed.write hwrite
    · exact absurd hagain hretried
    · rw [writeAll_of_write_error hne hafter (hlasting kind rfl)]
      exact ⟨rfl, hnext⟩

theorem Calmed.flushAll (hcalmed : Calmed s t) :
    t.flushAll.1 = s.flushAll.1 ∧ Calmed s.flushAll.2 t.flushAll.2 := by
  fun_induction WriteScript.flushAll s with
  | case1 s next hflush =>
    obtain ⟨_, ⟨⟩, -⟩ | ⟨-, after, hafter, hnext⟩ := hcalmed.flush hflush
    rw [flushAll_of_flush_ok hafter]
    exact ⟨rfl, hnext⟩
  | case2 s kind next hflush hretried ih =>
    obtain ⟨_, ⟨⟩, -, hnext⟩ | ⟨hlasting, -⟩ := hcalmed.flush hflush
    · exact ih hnext
    · exact absurd ((hlasting kind rfl).symm.trans hretried) Bool.false_ne_true
  | case3 s kind next hflush hretried =>
    obtain ⟨_, ⟨⟩, hagain, -⟩ | ⟨hlasting, after, hafter, hnext⟩ := hcalmed.flush hflush
    · exact absurd hagain hretried
    · rw [flushAll_of_flush_error hafter (hlasting kind rfl)]
      exact ⟨rfl, hnext⟩

/-- **Failures that are passed over change nothing**, wherever they are and however many: the answer is
the same without them, and so is what the stream takes. -/
theorem Calmed.send (hcalmed : Calmed s t) (bytes : Bytes) :
    (t.send bytes).1 = (s.send bytes).1 ∧ Calmed (s.send bytes).2 (t.send bytes).2 := by
  obtain ⟨hsame, hwritten⟩ := hcalmed.writeAll bytes
  unfold WriteScript.send
  rcases hs : s.writeAll bytes with ⟨result, next⟩
  rcases ht : t.writeAll bytes with ⟨reply, after⟩
  rw [hs, ht] at hsame hwritten
  obtain rfl : reply = result := hsame
  cases reply with
  | error cause => exact ⟨rfl, hwritten⟩
  | ok => exact hwritten.flushAll

end WriteScript

end CommandLink
