import Courier.Numeric.Decimal

/-!
# Binary64 numbers

A number of the IEEE 754 format binary64, by its meaning and not by its bits: a finite number is
`± significand · 2 ^ scale` in units of `2 ^ -1074`, the smallest positive number there is. The
significand lies below `2 ^ 53`, and the scale is zero or the significand is at least `2 ^ 52`, so
that a number has one form. There is one NaN.

Two ways of reading a decimal are in use, and both are here:

* `ofDecimal` gives the number nearest to the decimal;
* `ofScaledDecimal?` rounds the significand first and then scales it, rounding again, which is off
  by a unit in the last place for some decimals, and refuses what is too large.
-/

namespace Courier.Numeric

/-- A number of the format binary64. -/
inductive Binary64 where
  /-- `significand · 2 ^ scale` units of `2 ^ -1074`, or minus that. -/
  | finite (negative : Bool) (significand scale : Nat)
  /-- An infinity. -/
  | infinite (negative : Bool)
  /-- Not a number. -/
  | nan
  deriving DecidableEq, Repr, Inhabited

/-- The quotient of two numbers rounded to the nearest one, a half to the even neighbour. -/
def roundDiv (num den : Nat) : Nat :=
  let q := num / den
  let r := num % den
  if den < 2 * r ∨ (2 * r = den ∧ q % 2 = 1) then q + 1 else q

namespace Binary64

/-- How many units make one. -/
def unitsPerOne : Nat := Nat.pow 2 1074

/-- The largest scale of a finite number. -/
def maxScale : Nat := 2045

/-- Zero, with either sign. -/
def zero (negative : Bool) : Binary64 :=
  .finite negative 0 0

/-- A number of the form `significand · 2 ^ scale` whose significand may be `2 ^ 53`. -/
def normal (negative : Bool) (significand scale : Nat) : Binary64 :=
  let (significand, scale) :=
    if significand = Nat.pow 2 53 then (Nat.pow 2 52, scale + 1) else (significand, scale)
  if maxScale < scale then .infinite negative else .finite negative significand scale

/-- The number nearest to `num / den`, a tie to the even significand, and an infinity beyond the
finite numbers. -/
def ofRatio (negative : Bool) (num den : Nat) : Binary64 :=
  let units := num * unitsPerOne
  let scale := (units / den).log2 - 52
  normal negative (roundDiv units (den * Nat.pow 2 scale)) scale

/-- The number nearest to an integer. -/
def ofInt (n : Int) : Binary64 :=
  ofRatio (n < 0) n.natAbs 1

/-- The size of a finite number in units. -/
def units : Binary64 → Nat
  | .finite _ significand scale => significand * Nat.pow 2 scale
  | .infinite _ => 0
  | .nan => 0

/-- The number with the given sign and otherwise the same. -/
def withSign (negative : Bool) : Binary64 → Binary64
  | .finite _ significand scale => .finite negative significand scale
  | .infinite _ => .infinite negative
  | .nan => .nan

/-- A number is neither infinite nor NaN. -/
def isFinite : Binary64 → Bool
  | .finite .. => true
  | _ => false

/-! ## Reading decimals -/

/-- The number nearest to `± significand · 10 ^ exponent`. Far outside the range of the format the
answer is known from the number of digits alone. -/
def ofDecimal (negative : Bool) (significand : Nat) (exponent : Int) : Binary64 :=
  let magnitude := (digits significand).length + exponent
  if significand = 0 ∨ magnitude < -330 then zero negative
  else if 310 < magnitude then .infinite negative
  else if 0 ≤ exponent then ofRatio negative (significand * Nat.pow 10 exponent.toNat) 1
  else ofRatio negative significand (Nat.pow 10 (-exponent).toNat)

/-- The number nearest to a power of ten. -/
def powerOfTen (k : Nat) : Binary64 :=
  ofRatio false (Nat.pow 10 k) 1

/-- A finite number times a power of ten, both rounded. -/
def timesPowerOfTen (x : Binary64) (k : Nat) : Binary64 :=
  ofRatio false (x.units * (powerOfTen k).units) (unitsPerOne * unitsPerOne)

/-- A finite number divided by a power of ten, both rounded. -/
def overPowerOfTen (x : Binary64) (k : Nat) : Binary64 :=
  ofRatio false x.units (powerOfTen k).units

/-- The largest power of ten that one step of scaling takes. -/
def maxPower : Nat := 308

/-- `± significand · 10 ^ exponent`, where the significand is rounded before it is scaled and each
step of scaling rounds again. Fails where the result is too large. -/
def ofScaledDecimal? (negative : Bool) (significand : Nat) (exponent : Int) : Option Binary64 :=
  let x := ofRatio false significand 1
  let steps := exponent.natAbs
  let scaled :=
    if significand = 0 then some x
    else if 0 ≤ exponent then
      if maxPower < steps then none else some (x.timesPowerOfTen steps)
    else if steps ≤ maxPower then some (x.overPowerOfTen steps)
    else if steps ≤ 2 * maxPower then
      some ((x.overPowerOfTen maxPower).overPowerOfTen (steps - maxPower))
    else some (zero false)
  (scaled.filter isFinite).map (withSign negative)

end Binary64

end Courier.Numeric
