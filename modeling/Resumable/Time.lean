/-!
# Time

A span is a length of time without sign: whole seconds and the nanoseconds of a further one. An
instant is a number of seconds from the epoch, rounded down, and nanoseconds to add to them; every
signed 64-bit number of seconds occurs. `Instant.ofEpoch?` goes from seconds and nanoseconds to the
instant by moving from the epoch, each move checked against the range; `Instant.epochParts?` measures
the distance to the epoch and splits it again.
-/

namespace Resumable

/-- A length of time. -/
structure Span where
  secs : UInt64
  nanos : UInt32
  nanos_lt : nanos.toNat < 1000000000 := by decide
  deriving DecidableEq, Repr

namespace Span

/-- No time at all. -/
def zero : Span where
  secs := 0
  nanos := 0

/-- So many whole seconds. -/
def ofSecs (secs : UInt64) : Span where
  secs := secs
  nanos := 0

/-- The span in nanoseconds. -/
def toNanos (d : Span) : Nat := d.secs.toNat * 1000000000 + d.nanos.toNat

/-- The text of a span: seconds, and a fraction without trailing zeros if there is one. -/
def text (d : Span) : String :=
  let digits := (toString d.nanos.toNat).toList
  let padded := List.replicate (9 - digits.length) '0' ++ digits
  let fraction := (padded.reverse.dropWhile (· == '0')).reverse
  toString d.secs.toNat ++ (if fraction.isEmpty then "" else "." ++ String.ofList fraction) ++ "s"

end Span

/-- A point in time. -/
structure Instant where
  secs : Int64
  nanos : UInt32
  nanos_lt : nanos.toNat < 1000000000 := by decide
  deriving DecidableEq, Repr

namespace Instant

/-- The point from which time is counted. -/
def epoch : Instant where
  secs := 0
  nanos := 0

/-- Nanoseconds after the epoch, negative before it. -/
def toNanos (t : Instant) : Int := t.secs.toInt * 1000000000 + t.nanos.toNat

/-- The instant so many nanoseconds after the epoch, if its seconds are in range. -/
def ofNanos? (n : Int) : Option Instant :=
  let secs := n.fdiv 1000000000
  if -0x8000000000000000 ≤ secs ∧ secs < 0x8000000000000000 then
    some {
      secs := Int64.ofInt secs
      nanos := UInt32.ofNat (n.fmod 1000000000).toNat
      nanos_lt := by
        have h : (n.fmod 1000000000).toNat < 1000000000 := by
          have := Int.fmod_lt_of_pos n (by decide : (0 : Int) < 1000000000)
          omega
        rw [UInt32.toNat_ofNat_of_lt' (by simp only [UInt32.size]; omega)]
        exact h }
  else none

/-- The instant so many nanoseconds later, if it is in range. -/
def later? (t : Instant) (nanos : Nat) : Option Instant := ofNanos? (t.toNanos + nanos)

/-- The instant so many nanoseconds earlier, if it is in range. -/
def earlier? (t : Instant) (nanos : Nat) : Option Instant := ofNanos? (t.toNanos - nanos)

/-- The instant of so many seconds and nanoseconds after the epoch: seconds before the epoch are
taken off it first, and the nanoseconds are then added. -/
def ofEpoch? (secs : Int64) (nanos : UInt32) : Option Instant :=
  if 0 ≤ secs.toInt then epoch.later? (secs.toInt.toNat * 1000000000 + nanos.toNat)
  else (epoch.earlier? (secs.toInt.natAbs * 1000000000)).bind (·.later? nanos.toNat)

/-- Seconds, rounded down, and the nanoseconds to add to them, found from the distance to the epoch.
The whole seconds of the distance have to fit a signed 64-bit number, so the very first instant of
the range has no parts. -/
def epochParts? (t : Instant) : Option (Int64 × UInt32) :=
  let distance := t.toNanos.natAbs
  let whole : Int := distance / 1000000000
  let rest := distance % 1000000000
  if 0x8000000000000000 ≤ whole then none
  else if 0 ≤ t.toNanos then some (Int64.ofInt whole, UInt32.ofNat rest)
  else if rest = 0 then some (Int64.ofInt (-whole), 0)
  else if -0x8000000000000000 ≤ -whole - 1 then
    some (Int64.ofInt (-whole - 1), UInt32.ofNat (1000000000 - rest))
  else none

/-- The text of an instant, by its fields. -/
def text (t : Instant) : String :=
  "SystemTime \x7b tv_sec: " ++ toString t.secs.toInt ++ ", tv_nsec: " ++ toString t.nanos.toNat ++
    " \x7d"

end Instant

end Resumable
