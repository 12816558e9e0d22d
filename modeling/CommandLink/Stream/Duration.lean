import CommandLink.Decimal.Numeral

/-!
# Durations and clocks

A duration is a number of nanoseconds. It is shown in the largest unit of which it holds at least
one, with the fraction written out.

A clock tells points in time, but not every one: a point too far ahead has none that stands for it.
-/

namespace CommandLink

/-- A span of time. -/
structure Duration where
  nanoseconds : Nat
deriving DecidableEq, Repr

namespace Duration

/-- A number of seconds. -/
def seconds (n : Nat) : Duration := ⟨n * 10 ^ 9⟩

/-- The digits after the point of `n / 10 ^ places`, without trailing zeros. -/
def fraction (places n : Nat) : List Digit :=
  ((Digits.padded places n).reverse.dropWhile (· == 0)).reverse

/-- A duration in the unit of `10 ^ places` nanoseconds. -/
def textIn (unit : String) (places : Nat) (d : Duration) : String :=
  (Numeral.mk false (d.nanoseconds / 10 ^ places) (fraction places d.nanoseconds) none).text ++ unit

/-- A duration as it appears in messages. -/
def text (d : Duration) : String :=
  if 10 ^ 9 ≤ d.nanoseconds then d.textIn "s" 9
  else if 10 ^ 6 ≤ d.nanoseconds then d.textIn "ms" 6
  else if 10 ^ 3 ≤ d.nanoseconds then d.textIn "µs" 3
  else d.textIn "ns" 0

end Duration

/-! ## Clocks -/

/-- A point in time on the steady clock of a machine, in nanoseconds since its start. -/
structure Instant where
  nanoseconds : Nat
deriving DecidableEq, Repr

namespace Instant

/-- The nanoseconds that a clock can tell: it counts its seconds in 63 bits. -/
def limit : Nat := 2 ^ 63 * 10 ^ 9

/-- The point in time a duration later, if the clock can tell it. -/
def after? (t : Instant) (d : Duration) : Option Instant :=
  if t.nanoseconds + d.nanoseconds < limit then some ⟨t.nanoseconds + d.nanoseconds⟩ else none

theorem after?_eq_some {t later : Instant} {d : Duration} : t.after? d = some later ↔
    t.nanoseconds + d.nanoseconds < limit ∧ later = ⟨t.nanoseconds + d.nanoseconds⟩ := by
  unfold after?
  split
  · rename_i hbefore
    simp only [Option.some.injEq, hbefore, true_and, eq_comm]
  · rename_i hbeyond
    simp only [reduceCtorEq, hbeyond, false_and]

end Instant

/-- What a clock shows. It was started with its machine, so it has told less than half of what it can
tell. -/
structure Clock where
  now : Instant
  young : now.nanoseconds < 2 ^ 62 * 10 ^ 9
deriving DecidableEq, Repr

namespace Clock

/-- A clock that has just been started. -/
def started : Clock := ⟨⟨0⟩, by decide⟩

/-- The clock can tell the deadline after this duration, and has not reached it. -/
def Allows (c : Clock) (d : Duration) : Prop :=
  ∃ deadline, c.now.after? d = some deadline ∧ c.now.nanoseconds < deadline.nanoseconds

theorem allows_iff {c : Clock} {d : Duration} : c.Allows d ↔
    0 < d.nanoseconds ∧ c.now.nanoseconds + d.nanoseconds < Instant.limit := by
  constructor
  · rintro ⟨deadline, hdeadline, hahead⟩
    obtain ⟨hlimit, rfl⟩ := Instant.after?_eq_some.mp hdeadline
    exact ⟨Nat.pos_of_lt_add_right hahead, hlimit⟩
  · rintro ⟨hpositive, hlimit⟩
    exact ⟨_, Instant.after?_eq_some.mpr ⟨hlimit, rfl⟩, Nat.lt_add_of_pos_right hpositive⟩

/-- A clock allows every duration up to the half of what it can tell, except that of nothing. -/
theorem allows_of_le {d : Duration} (hpositive : 0 < d.nanoseconds)
    (hle : d.nanoseconds ≤ 2 ^ 62 * 10 ^ 9) (c : Clock) : c.Allows d := by
  have hyoung := c.young
  refine allows_iff.mpr ⟨hpositive, ?_⟩
  unfold Instant.limit
  omega

end Clock

end CommandLink
