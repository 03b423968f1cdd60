/-!
# Waiting before another try

The wait before the next try doubles from 200 ms with every try, is spread by a random factor, the
jitter, and is never longer than 64 seconds. What a backend asks for goes before the computed wait,
up to the same bound.
-/

namespace Courier.Client

/-- The longest wait in milliseconds. -/
def longestWait : Nat := 64000

/-- The least jitter. -/
def leastJitter : Rat := 8 / 10

/-- The bound that the jitter stays below. -/
def jitterBound : Rat := 12 / 10

/-- The wait before jitter and bound in milliseconds; it stops doubling after sixteen times. -/
def baseWait (attempt : Nat) : Nat :=
  200 * Nat.pow 2 (min (attempt - 1) 16)

/-- The wait in milliseconds after try number `attempt`. -/
def backoff (attempt : Nat) (jitter : Rat) : Nat :=
  min (baseWait attempt * jitter).floor.toNat longestWait

end Courier.Client
