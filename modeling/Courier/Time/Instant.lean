import Courier.Time.Calendar

/-!
# Instants

An `Instant` is a second since 1970-01-01T00:00:00Z and a fraction of it in nanoseconds. Second 59
of a minute may be followed by a leap second, which is written as a fraction of a whole second and
more. Instants lie between the years -262143 and 262142.

* `Instant.addSeconds?` moves an instant, unless it would leave that range.
* `Instant.since` is the time between two instants in nanoseconds; a leap second between them counts
  if one of them lies in it.
-/

namespace Courier.Time

/-- How many nanoseconds a second has. -/
def nanosPerSecond : Nat := 1000000000

/-- The first second of the year -262143. -/
def firstSecond : Int := -8334601228800

/-- The last second of the year 262142. -/
def lastSecond : Int := 8210266876799

/-- A point in time. -/
structure Instant where
  /-- The second, counted from 1970-01-01T00:00:00Z. -/
  seconds : Int
  /-- The nanoseconds since that second began. -/
  nanos : Nat
  /-- The range begins with `firstSecond`. -/
  first_le : firstSecond ≤ seconds
  /-- The range ends with `lastSecond`. -/
  le_last : seconds ≤ lastSecond
  /-- Only second 59 of a minute takes a leap second. -/
  nanos_lt : nanos < nanosPerSecond ∨ (nanos < 2 * nanosPerSecond ∧ seconds % 60 = 59)
  deriving DecidableEq

namespace Instant

/-- The instant of a second and nanoseconds, if there is one. -/
def of? (seconds : Int) (nanos : Nat) : Option Instant :=
  if h : firstSecond ≤ seconds ∧ seconds ≤ lastSecond
      ∧ (nanos < nanosPerSecond ∨ (nanos < 2 * nanosPerSecond ∧ seconds % 60 = 59)) then
    some ⟨seconds, nanos, h.1, h.2.1, h.2.2⟩
  else none

/-- The first instant of 1970. -/
def epoch : Instant :=
  ⟨0, 0, by decide, by decide, by decide⟩

instance : Inhabited Instant := ⟨epoch⟩

/-- The instant that is some milliseconds after `epoch`, if it is in range. -/
def ofMillis? (ms : Int) : Option Instant :=
  of? (ms / 1000) ((ms % 1000).toNat * 1000000)

/-- An instant lies in a leap second. -/
def isLeap (t : Instant) : Bool :=
  nanosPerSecond ≤ t.nanos

/-- The instant some seconds away. From within a leap second the way back leads to the second before
it, and the way forward to the second after it. -/
def addSeconds? (t : Instant) (seconds : Int) : Option Instant :=
  if t.isLeap then
    if 0 < seconds then of? (t.seconds + seconds) (t.nanos - nanosPerSecond)
    else if seconds < 0 then of? (t.seconds + 1 + seconds) (t.nanos - nanosPerSecond)
    else some t
  else of? (t.seconds + seconds) t.nanos

/-- The instant some milliseconds later, by a clock that knows no leap seconds and stops at the end of
the range. -/
def later (t : Instant) (ms : Nat) : Instant :=
  let nanos := t.nanos + 1000000 * ms
  (of? (t.seconds + nanos / nanosPerSecond) (nanos % nanosPerSecond)).getD t

/-- How many seconds a day has. -/
def secondsPerDay : Int := 86400

/-- The seconds from `u` to `t` that the leap seconds either lies in add or take: a leap second of
the earlier time of day has passed at the later one. -/
def leapCorrection (t u : Instant) : Int :=
  let ofDay := t.seconds % secondsPerDay
  let otherOfDay := u.seconds % secondsPerDay
  if otherOfDay < ofDay then if u.isLeap then 1 else 0
  else if ofDay < otherOfDay then if t.isLeap then -1 else 0
  else 0

/-- The nanoseconds from `u` to `t`. -/
def since (t u : Instant) : Int :=
  (t.seconds - u.seconds + leapCorrection t u) * nanosPerSecond + ((t.nanos : Int) - u.nanos)

end Instant

end Courier.Time
