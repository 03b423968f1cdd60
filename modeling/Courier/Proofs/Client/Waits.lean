import Courier.Client.Dispatch
import Mathlib.Algebra.Order.Ring.Rat
import Mathlib.Data.Nat.Cast.Order.Ring

/-!
# How long the waits are

`baseWait` and `backoff` count in natural numbers, a machine counts in words of 64 bits, and there a
step that leaves the words is a fault. No step does, whatever the number of the try: the doublings
are limited before the bits are moved, so the wait before jitter is the same in words
(`baseWait?_eq`), and with any jitter it stays far below the bound of the words
(`exists_floor_baseWait_mul`).

So a computed wait is the product, without its fraction, or the longest wait, and one that a backend
asks for is what it asks for, or the longest wait (`Wait.lasts_due`).
-/

namespace Courier.Client

/-! ## In words -/

/-- The product of two words, unless it overflows. -/
def product? (a b : UInt64) : Option UInt64 :=
  if a.toNat * b.toNat < UInt64.size then some (a * b) else none

/-- A word with its bits moved up, unless a word has not as many places. -/
def shifted? (a places : UInt64) : Option UInt64 :=
  if places < 64 then some (a <<< places) else none

/-- How often the wait has been doubled at a try; number zero counts as the first try. -/
def doublings (attempt : UInt64) : UInt64 :=
  min (if attempt = 0 then 0 else attempt - 1) 16

/-- The wait before jitter and bound in milliseconds, unless a step of it overflows. -/
def baseWait? (attempt : UInt64) : Option UInt64 :=
  (shifted? 1 (doublings attempt)).bind (product? 200)

/-- The doublings of a wait are counted from the second try on, up to sixteen. -/
theorem toNat_doublings (attempt : UInt64) :
    (doublings attempt).toNat = min (attempt.toNat - 1) 16 := by
  unfold doublings
  rw [UInt64.toNat_min]
  congr 1
  split
  case isTrue h => rw [h]; rfl
  case isFalse h =>
    have hle : 1 ≤ attempt := by
      rw [UInt64.le_iff_toNat_le]
      exact Nat.pos_of_ne_zero fun hzero => h (UInt64.toNat_inj.mp hzero)
    rw [UInt64.toNat_sub_of_le _ _ hle]
    rfl

/-- **In words it is the same**: no step overflows. -/
theorem baseWait?_eq (attempt : UInt64) :
    (baseWait? attempt).map UInt64.toNat = some (baseWait attempt.toNat) := by
  have hfew : ∀ n ≤ 16, ((shifted? 1 (UInt64.ofNat n)).bind (product? 200)).map UInt64.toNat
      = some (200 * Nat.pow 2 n) := by decide
  have hword := hfew (doublings attempt).toNat
    (toNat_doublings attempt ▸ Nat.min_le_right _ _)
  rw [UInt64.ofNat_toNat, toNat_doublings] at hword
  exact hword

/-! ## With jitter -/

/-- A wait without jitter has a bound. -/
theorem baseWait_le (attempt : Nat) : baseWait attempt ≤ 200 * 65536 :=
  Nat.mul_le_mul_left 200 (Nat.pow_le_pow_right (n := 2) (by decide) (Nat.min_le_right _ 16))

variable {jitter : Rat}

/-- A wait with jitter is a number of milliseconds that is a word, once its fraction is cut. -/
theorem exists_floor_baseWait_mul (attempt : Nat) (hleast : leastJitter ≤ jitter)
    (hbound : jitter < jitterBound) :
    ∃ ms : Nat, (baseWait attempt * jitter).floor = ms ∧ ms < UInt64.size := by
  have hpos : 0 ≤ jitter := le_trans (by decide +kernel) hleast
  have htwo : jitter ≤ 2 := le_of_lt (hbound.trans (by decide +kernel))
  have hbase : (baseWait attempt : Rat) ≤ 200 * 65536 := mod_cast baseWait_le attempt
  have hproduct : baseWait attempt * jitter ≤ 200 * 65536 * 2 :=
    mul_le_mul hbase htwo hpos (by decide +kernel)
  have hnonneg : 0 ≤ (baseWait attempt * jitter).floor :=
    Rat.le_floor_iff.mpr (mul_nonneg (Nat.cast_nonneg _) hpos)
  obtain ⟨ms, hms⟩ := Int.eq_ofNat_of_zero_le hnonneg
  refine ⟨ms, hms, ?_⟩
  have hfloor : ((ms : Int) : Rat) ≤ 200 * 65536 * 2 :=
    le_trans (hms ▸ Rat.floor_le _) hproduct
  have hle : ms ≤ 200 * 65536 * 2 := mod_cast hfloor
  exact lt_of_le_of_lt hle (by decide)

/-! ## The waits -/

/-- A wait is as long as is wanted after try number `attempt`, if the backend wants to be left alone
for so many seconds, or for no number of seconds. -/
structure Wait.Lasts (w : Wait) (retryAfter : Option Nat) (attempt : Nat) : Prop where
  /-- What the backend asks for, up to 64 seconds. -/
  requested : ∀ seconds, retryAfter = some seconds → ∀ jitter,
    w.millis jitter = min (1000 * seconds) 64000
  /-- Else 200 milliseconds, doubled with every try up to sixteen times, times the jitter, without
  the fraction and up to 64 seconds. The product is a word. -/
  computed : retryAfter = none → ∀ jitter, leastJitter ≤ jitter → jitter < jitterBound →
    ∃ ms : Nat, ((200 * Nat.pow 2 (min (attempt - 1) 16) : Nat) * jitter).floor = ms ∧
      ms < UInt64.size ∧ w.millis jitter = min ms 64000

/-- The wait before another try, if the backend wants to be left alone for so many seconds, or for
no number of seconds. -/
def Wait.due (retryAfter : Option Nat) (attempt : Nat) : Wait :=
  match retryAfter with
  | some seconds => .requested seconds
  | none => .backoff attempt

/-- The wait after a failure is the one that is due for what it asks for. -/
theorem Wait.after_eq (e : Error) (attempt : Nat) :
    Wait.after e attempt = Wait.due e.retryAfter? attempt := rfl

/-- **That is how long they are.** -/
theorem Wait.lasts_due (retryAfter : Option Nat) (attempt : Nat) :
    (Wait.due retryAfter attempt).Lasts retryAfter attempt where
  requested := by
    rintro seconds rfl jitter
    rfl
  computed := by
    rintro rfl jitter hleast hbound
    obtain ⟨ms, hms, hword⟩ := exists_floor_baseWait_mul attempt hleast hbound
    refine ⟨ms, hms, hword, ?_⟩
    show min (baseWait attempt * jitter).floor.toNat longestWait = min ms 64000
    rw [hms]
    rfl

end Courier.Client
