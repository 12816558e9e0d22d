import CommandLink.Bytes
import CommandLink.Stream.Duration

/-!
# Scripted streams

A stream is given by what its calls will answer: a list of events, one for each call. So reading and
writing are functions from a script to an outcome and the script that is left. Once its events are
used up, a script of reads is at its end for ever, and a script of writes accepts everything.

A read that delivers bytes makes the script smaller (`ReadScript.size_read_lt`), and so does a write
that leaves something to offer; the loops above a stream end because of that.
-/

namespace CommandLink

/-- The kinds of failure that a stream reports. -/
inductive IoErrorKind where
  | interrupted
  | wouldBlock
  | timedOut
  | connectionReset
  | brokenPipe
  | unexpectedEof
  | other
  | unsupported
deriving DecidableEq, Repr

/-- The wording of a failure. -/
def IoErrorKind.text : IoErrorKind → String
  | interrupted => "operation interrupted"
  | wouldBlock => "operation would block"
  | timedOut => "timed out"
  | connectionReset => "connection reset"
  | brokenPipe => "broken pipe"
  | unexpectedEof => "unexpected end of file"
  | other => "other error"
  | unsupported => "unsupported"

/-- The timeouts set on a stream, in order, and whether setting one fails. -/
structure TimeoutLog where
  refuses : Bool
  set : List (Option Duration)
deriving DecidableEq, Repr

/-- Sets a timeout. -/
def TimeoutLog.apply (log : TimeoutLog) (timeout : Option Duration) :
    Except IoErrorKind TimeoutLog :=
  if log.refuses then .error .unsupported else .ok { log with set := log.set ++ [timeout] }

/-! ## Reads -/

/-- What a read call meets. -/
inductive ReadEvent where
  /-- These bytes have arrived; what the caller has no room for is met by the next call. -/
  | deliver (bytes : Bytes)
  /-- The stream has ended, for this call. -/
  | finish
  | fail (kind : IoErrorKind)
  /-- This call and all that follow fail. -/
  | failForever (kind : IoErrorKind)
deriving DecidableEq, Repr

/-- What a read call answers. -/
inductive ReadOutcome where
  | delivered (bytes : Bytes)
  | ended
  | failed (kind : IoErrorKind)
deriving DecidableEq, Repr

/-- A stream to read from. -/
structure ReadScript where
  pending : List ReadEvent
  /-- The read calls so far. -/
  calls : Nat
  timeouts : TimeoutLog
deriving DecidableEq, Repr

/-- One call for each event and one for each byte are enough to use it up. -/
def ReadEvent.size : ReadEvent → Nat
  | deliver bytes => bytes.length + 1
  | _ => 1

namespace ReadScript

/-- A bound on the calls that use the script up, if it does not fail for ever. -/
def size (s : ReadScript) : Nat := s.pending.foldr (fun event size => event.size + size) 0

/-- One read call with room for `room` bytes. -/
def read (s : ReadScript) (room : Nat) : ReadOutcome × ReadScript :=
  let called (pending : List ReadEvent) : ReadScript :=
    { s with pending := pending, calls := s.calls + 1 }
  match s.pending with
  | [] => (.ended, called [])
  | .finish :: rest => (.ended, called rest)
  | .fail kind :: rest => (.failed kind, called rest)
  | .failForever kind :: rest => (.failed kind, called (.failForever kind :: rest))
  | .deliver [] :: rest => (.ended, called rest)
  | .deliver bytes :: rest =>
    (.delivered (bytes.take room),
      called (if (bytes.drop room).isEmpty then rest else .deliver (bytes.drop room) :: rest))

/-- Reads until a call is not interrupted. A stream whose calls are interrupted for ever reports
the interruption. -/
def readSteadily (s : ReadScript) (room : Nat) : ReadOutcome × ReadScript :=
  go s.pending s.calls
where
  /-- The same from the given events and number of calls on. -/
  go : List ReadEvent → Nat → ReadOutcome × ReadScript
    | .fail .interrupted :: rest, calls => go rest (calls + 1)
    | pending, calls => { s with pending := pending, calls := calls }.read room

/-- Whether all further calls fail in this way. -/
def failsForever (s : ReadScript) (kind : IoErrorKind) : Bool :=
  match s.pending with
  | .failForever lasting :: _ => lasting == kind
  | _ => false

theorem size_read_lt {s t : ReadScript} {room : Nat} {bytes : Bytes} (hroom : 0 < room)
    (h : s.read room = (.delivered bytes, t)) : t.size < s.size := by
  cases hs : s.pending with
  | nil => simp [read, hs] at h
  | cons event rest =>
    cases event with
    | finish => simp [read, hs] at h
    | fail kind => simp [read, hs] at h
    | failForever kind => simp [read, hs] at h
    | deliver front =>
      cases front with
      | nil => simp [read, hs] at h
      | cons b front =>
        simp only [read, hs, Prod.mk.injEq] at h
        rw [← h.2]
        simp only [size, hs, List.foldr_cons, ReadEvent.size, List.length_cons]
        split
        · omega
        · simp only [List.foldr_cons, List.length_drop, List.length_cons]
          omega

end ReadScript

/-! ## Writes -/

/-- What a write call meets. -/
inductive WriteEvent where
  /-- So many bytes are taken, or all that are offered if that is less. -/
  | accept (limit : Nat)
  | fail (kind : IoErrorKind)
deriving DecidableEq, Repr

/-- What a flush call meets. -/
inductive FlushEvent where
  | succeed
  | fail (kind : IoErrorKind)
deriving DecidableEq, Repr

/-- A stream to write to. -/
structure WriteScript where
  writes : List WriteEvent
  flushes : List FlushEvent
  /-- All bytes taken so far. -/
  accepted : Bytes
  writeCalls : Nat
  flushCalls : Nat
  timeouts : TimeoutLog
deriving DecidableEq, Repr

namespace WriteScript

/-- One write call: how many of the offered bytes are taken, or the failure. -/
def write (s : WriteScript) (offered : Bytes) : Except IoErrorKind Nat × WriteScript :=
  match s.writes with
  | [] =>
    (.ok offered.length,
      { s with accepted := s.accepted ++ offered, writeCalls := s.writeCalls + 1 })
  | .accept limit :: rest =>
    (.ok (min limit offered.length),
      { s with
        writes := rest
        accepted := s.accepted ++ offered.take limit
        writeCalls := s.writeCalls + 1 })
  | .fail kind :: rest =>
    (.error kind, { s with writes := rest, writeCalls := s.writeCalls + 1 })

/-- One flush call. -/
def flush (s : WriteScript) : Except IoErrorKind Unit × WriteScript :=
  match s.flushes with
  | [] => (.ok (), { s with flushCalls := s.flushCalls + 1 })
  | .succeed :: rest => (.ok (), { s with flushes := rest, flushCalls := s.flushCalls + 1 })
  | .fail kind :: rest => (.error kind, { s with flushes := rest, flushCalls := s.flushCalls + 1 })

end WriteScript

end CommandLink
