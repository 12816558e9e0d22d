import CommandLink.Stream.Reader

/-!
# What read calls hand out

A stream is seen from two sides. `Reads` looks back: these read calls were made, and this is what
they answered. `outlook` looks ahead: these bytes are still to be handed out before the stream ends
or fails, if failures of some kinds are passed over.

* `Reads.outlook`: read calls hand out the front of the outlook.
* `exists_reads_of_readSteadily`: a steady read is one call behind any number of interruptions.
-/

namespace CommandLink

/-- The bytes that a read call hands out. -/
def ReadOutcome.bytes : ReadOutcome → Bytes
  | delivered bytes => bytes
  | ended => []
  | failed _ => []

/-- Whether one goes on reading: there were bytes, or a failure that is passed over. -/
def ReadOutcome.goesOn (passes : IoErrorKind → Bool) : ReadOutcome → Bool
  | delivered _ => true
  | ended => false
  | failed kind => passes kind

/-- Whether a read that fails in this way is made again at once. -/
def IoErrorKind.isInterruption (kind : IoErrorKind) : Bool := kind == .interrupted

/-- How a stream goes on that hands out no more bytes. -/
inductive StreamEnd where
  | ended
  | failed (kind : IoErrorKind)
  /-- Every further call fails in a way that is passed over. -/
  | stalled
deriving DecidableEq, Repr

/-- How a stream ends that stops with this call. -/
def ReadOutcome.ending : ReadOutcome → StreamEnd
  | delivered _ => .ended
  | ended => .ended
  | failed kind => .failed kind

/-- What is to be had from a stream. -/
structure Outlook where
  bytes : Bytes
  ending : StreamEnd
deriving DecidableEq, Repr

namespace ReadScript

/-- Read calls, one after the other, and what they answered. -/
inductive Reads : ReadScript → List ReadOutcome → ReadScript → Prop where
  | nil (s : ReadScript) : Reads s [] s
  | cons {s t u : ReadScript} {outcome : ReadOutcome} {rest : List ReadOutcome}
      (call : s.read Reader.readSize = (outcome, t)) (more : Reads t rest u) :
      Reads s (outcome :: rest) u

/-- What is to be had from these events. -/
def outlookOf (passes : IoErrorKind → Bool) : List ReadEvent → Outlook
  | [] => ⟨[], .ended⟩
  | .finish :: _ => ⟨[], .ended⟩
  | .deliver [] :: _ => ⟨[], .ended⟩
  | .deliver (b :: bytes) :: rest =>
    ⟨b :: bytes ++ (outlookOf passes rest).bytes, (outlookOf passes rest).ending⟩
  | .fail kind :: rest => if passes kind then outlookOf passes rest else ⟨[], .failed kind⟩
  | .failForever kind :: _ => ⟨[], if passes kind then .stalled else .failed kind⟩

/-- What is to be had from a stream before it ends, or fails in a way that is not passed over. -/
def outlook (s : ReadScript) (passes : IoErrorKind → Bool) : Outlook := outlookOf passes s.pending

/-- No call is interrupted for ever. -/
def Responsive (s : ReadScript) : Prop := .failForever .interrupted ∉ s.pending

variable {s t u : ReadScript} {outcome : ReadOutcome} {reads more : List ReadOutcome}
  {passes : IoErrorKind → Bool}

/-- A stream that delivers pieces and then ends has their bytes to hand out. -/
theorem outlook_pieces {pieces : List Bytes} (hpieces : ∀ p ∈ pieces, p ≠ [])
    (hpending : s.pending = pieces.map .deliver) :
    s.outlook passes = ⟨pieces.flatten, .ended⟩ := by
  rw [outlook, hpending]
  clear hpending
  induction pieces with
  | nil => rfl
  | cons p pieces ih =>
    obtain ⟨hp, hothers⟩ := List.forall_mem_cons.mp hpieces
    obtain ⟨b, bytes, rfl⟩ := List.exists_cons_of_ne_nil hp
    rw [List.map_cons, outlookOf, ih hothers, List.flatten_cons]

/-! ## One call -/

/-- **A call hands out the front of the outlook**, or finds out how the stream ends. -/
theorem outlook_read (hread : s.read Reader.readSize = (outcome, t)) : s.outlook passes =
    if outcome.goesOn passes then
      ⟨outcome.bytes ++ (t.outlook passes).bytes, (t.outlook passes).ending⟩
    else ⟨[], outcome.ending⟩ := by
  unfold outlook
  cases hs : s.pending with
  | nil =>
    simp only [read, hs] at hread
    cases hread
    rfl
  | cons event rest =>
    cases event with
    | finish =>
      simp only [read, hs] at hread
      cases hread
      rfl
    | fail kind =>
      simp only [read, hs] at hread
      cases hread
      rfl
    | failForever kind =>
      simp only [read, hs] at hread
      cases hread
      by_cases hpasses : passes kind = true
      · simp [outlookOf, ReadOutcome.goesOn, ReadOutcome.bytes, hpasses]
      · simp [outlookOf, ReadOutcome.goesOn, ReadOutcome.ending, hpasses]
    | deliver bytes =>
      cases bytes with
      | nil =>
        simp only [read, hs] at hread
        cases hread
        rfl
      | cons b bytes =>
        simp only [read, hs] at hread
        cases hread
        simp only [ReadOutcome.goesOn, if_true, outlookOf, ReadOutcome.bytes]
        cases hdrop : (b :: bytes).drop Reader.readSize with
        | nil =>
          have htake := List.take_append_drop Reader.readSize (b :: bytes)
          rw [hdrop, List.append_nil] at htake
          simp only [List.isEmpty_nil, if_true, htake]
        | cons b' bytes' =>
          simp only [List.isEmpty_cons, Bool.false_eq_true, if_false, outlookOf]
          rw [← List.append_assoc, ← hdrop, List.take_append_drop]

/-- A call that goes wrong for ever was bound to. -/
theorem mem_pending_of_read {kind : IoErrorKind} (hread : s.read Reader.readSize = (outcome, t))
    (hmem : .failForever kind ∈ t.pending) : .failForever kind ∈ s.pending := by
  unfold read at hread
  split at hread <;> rename_i hpending <;> cases hread <;> rw [hpending]
  · exact absurd hmem List.not_mem_nil
  · exact List.mem_cons_of_mem _ hmem
  · exact List.mem_cons_of_mem _ hmem
  · exact hmem
  · exact List.mem_cons_of_mem _ hmem
  · simp only at hmem
    split at hmem
    · exact List.mem_cons_of_mem _ hmem
    · exact List.mem_cons_of_mem _ ((List.mem_cons.mp hmem).resolve_left nofun)

/-! ## Calls one after the other -/

theorem Reads.append (hfirst : s.Reads reads t) (hsecond : t.Reads more u) :
    s.Reads (reads ++ more) u := by
  induction hfirst with
  | nil => exact hsecond
  | cons call _ ih => exact .cons call (ih hsecond)

/-- The last of some calls was made on what the others left. -/
theorem Reads.exists_last (hreads : s.Reads (reads ++ [outcome]) u) :
    ∃ t, s.Reads reads t ∧ t.read Reader.readSize = (outcome, u) := by
  induction reads generalizing s with
  | nil =>
    cases hreads with
    | cons call more =>
      cases more
      exact ⟨s, .nil s, call⟩
  | cons first reads ih =>
    cases hreads with
    | cons call more =>
      obtain ⟨t, hfront, hlast⟩ := ih more
      exact ⟨t, .cons call hfront, hlast⟩

/-- **Read calls hand out the front of the outlook.** -/
theorem Reads.outlook (hreads : s.Reads reads t) (hgoes : ∀ o ∈ reads, o.goesOn passes = true) :
    s.outlook passes =
      ⟨reads.flatMap ReadOutcome.bytes ++ (t.outlook passes).bytes, (t.outlook passes).ending⟩ := by
  induction hreads with
  | nil => rfl
  | cons call _ ih =>
    obtain ⟨hfirst, hrest⟩ := List.forall_mem_cons.mp hgoes
    rw [outlook_read call, if_pos hfirst, ih hrest, List.flatMap_cons, List.append_assoc]

/-- Read calls of which the last one did not go on found out all that was to be had. -/
theorem Reads.outlook_of_stop (hreads : s.Reads (reads ++ [outcome]) u)
    (hgoes : ∀ o ∈ reads, o.goesOn passes = true) (hstop : outcome.goesOn passes ≠ true) :
    s.outlook passes = ⟨reads.flatMap ReadOutcome.bytes, outcome.ending⟩ := by
  obtain ⟨t, hfront, hlast⟩ := hreads.exists_last
  rw [hfront.outlook hgoes, outlook_read hlast, if_neg hstop, List.append_nil]

theorem Reads.responsive (hreads : s.Reads reads t) (hresponsive : s.Responsive) :
    t.Responsive := by
  induction hreads with
  | nil => exact hresponsive
  | cons call _ ih => exact ih fun hmem => hresponsive (mem_pending_of_read call hmem)

/-! ## Steady reads -/

/-- **A steady read is one call behind any number of interruptions**, and is no interruption
itself. -/
theorem exists_reads_of_readSteadily (hresponsive : s.Responsive)
    (hread : s.readSteadily Reader.readSize = (outcome, t)) :
    ∃ waits, (∀ w ∈ waits, w = .failed .interrupted) ∧ outcome ≠ .failed .interrupted ∧
      s.Reads (waits ++ [outcome]) t := by
  suffices h : ∀ pending calls, .failForever .interrupted ∉ pending →
      readSteadily.go s Reader.readSize pending calls = (outcome, t) →
      ∃ waits, (∀ w ∈ waits, w = .failed .interrupted) ∧ outcome ≠ .failed .interrupted ∧
        Reads { s with pending := pending, calls := calls } (waits ++ [outcome]) t from
    h s.pending s.calls hresponsive hread
  intro pending calls hnever hgo
  fun_induction readSteadily.go s Reader.readSize pending calls with
  | case1 calls rest ih =>
    obtain ⟨waits, hwaits, hlast, hreads⟩ := ih (fun h => hnever (List.mem_cons_of_mem _ h)) hgo
    refine ⟨.failed .interrupted :: waits, ?_, hlast, .cons rfl hreads⟩
    exact List.forall_mem_cons.mpr ⟨rfl, hwaits⟩
  | case2 calls pending hother =>
    refine ⟨[], List.forall_mem_nil _, ?_, .cons hgo (.nil t)⟩
    rintro rfl
    unfold read at hgo
    split at hgo <;> rename_i hpending <;> cases hgo
    · exact hother _ hpending
    · simp only at hpending
      rw [hpending] at hnever
      exact hnever (List.mem_cons_self ..)

end ReadScript

end CommandLink
