import Courier.Json.Reading

/-!
# Numbers in a JSON text

A numeral is laid out from its octets by `Numeral.scan` and given its number by `Numeral.number`.

* A numeral without point and exponent is an integer if it fits 64 bits, signed below zero and
  unsigned above; `-0` and everything larger is a binary64 number.
* Of any other numeral the first digits that fit 64 bits make up the significand; it is rounded
  before the power of ten is applied (`Binary64.ofScaledDecimal?`). A number beyond the finite ones
  is a fault.
-/

namespace Courier.Json

open Courier.Numeric

/-- An octet stands for a character of ASCII. -/
def isChar (c : Char) (b : UInt8) : Bool :=
  b.toNat == c.toNat

/-- An octet stands for a decimal digit. -/
def isDigit (b : UInt8) : Bool :=
  0x30 ≤ b.toNat && b.toNat ≤ 0x39

/-- The two faults met where a text breaks off: that of a reader and that of a skipper. -/
structure Break where
  /-- The fault a reader meets. -/
  strict : Fault
  /-- The fault a skipper meets. -/
  lenient : Fault
  deriving DecidableEq

/-- A break that is the same for both. -/
def Break.both (f : Fault) : Break :=
  ⟨f, f⟩

/-- A numeral in its parts. -/
structure Numeral where
  /-- It starts with a minus sign. -/
  negative : Bool
  /-- The digits before the point. -/
  whole : List Nat
  /-- The digits after the point, if there is one. -/
  fraction : Option (List Nat)
  /-- The exponent: whether it is negative, and its digits. -/
  exponent : Option (Bool × List Nat)

namespace Numeral

/-! ## Laying out -/

/-- The digits at the front, and what follows them. -/
def digitRun (bytes : List UInt8) : List Nat × List UInt8 :=
  ((bytes.takeWhile isDigit).map fun b => b.toNat - 0x30, bytes.dropWhile isDigit)

/-- At least one digit. Where there is none a reader tells the end of the text from another octet,
and a skipper does not. -/
def digitRun? (bytes : List UInt8) : Except Break (List Nat × List UInt8) :=
  match digitRun bytes with
  | ([], []) => .error ⟨.truncated, .malformed⟩
  | ([], _ :: _) => .error (.both .malformed)
  | run => .ok run

/-- The digits before the point: a zero alone, or digits that start with another one. -/
def scanWhole (bytes : List UInt8) : Except Break (List Nat × List UInt8) :=
  match digitRun? bytes with
  | .ok (0 :: _ :: _, _) => .error (.both .malformed)
  | run => run

/-- The part after the point, if there is one. -/
def scanFraction : List UInt8 → Except Break (Option (List Nat) × List UInt8)
  | [] => .ok (none, [])
  | b :: rest =>
    if isChar '.' b then (digitRun? rest).map fun run => (some run.1, run.2)
    else .ok (none, b :: rest)

/-- The sign of an exponent. -/
def scanSign : List UInt8 → Bool × List UInt8
  | [] => (false, [])
  | b :: rest =>
    if isChar '+' b then (false, rest)
    else if isChar '-' b then (true, rest)
    else (false, b :: rest)

/-- The exponent, if there is one. -/
def scanExponent : List UInt8 → Except Break (Option (Bool × List Nat) × List UInt8)
  | [] => .ok (none, [])
  | b :: rest =>
    if isChar 'e' b || isChar 'E' b then
      let (negative, rest) := scanSign rest
      (digitRun? rest).map fun run => (some (negative, run.1), run.2)
    else .ok (none, b :: rest)

/-- The numeral after its sign. -/
def scanUnsigned (negative : Bool) (bytes : List UInt8) :
    Except Break (Numeral × List UInt8) := do
  let (whole, rest) ← scanWhole bytes
  let (fraction, rest) ← scanFraction rest
  let (exponent, rest) ← scanExponent rest
  return (⟨negative, whole, fraction, exponent⟩, rest)

/-- The numeral at the front of a text, and what follows it. -/
def scan (bytes : List UInt8) : Except Break (Numeral × List UInt8) :=
  match bytes with
  | b :: rest => if isChar '-' b then scanUnsigned true rest else scanUnsigned false bytes
  | [] => scanUnsigned false []

/-! ## Its number -/

/-- The bound of the significand. -/
def wordSize : Nat := UInt64.size

/-- The significand of the digits before the point, and how many of them it leaves out. -/
def wholeSignificand (ds : List Nat) : Nat × Nat :=
  ds.foldl (fun (m, dropped) d =>
    if dropped = 0 ∧ 10 * m + d < wordSize then (10 * m + d, 0) else (m, dropped + 1)) (0, 0)

/-- A significand with digits after the point added while it fits, and how many were. -/
def addFraction : Nat → List Nat → Nat × Nat
  | m, [] => (m, 0)
  | m, d :: ds =>
    if 10 * m + d < wordSize then
      let (m, taken) := addFraction (10 * m + d) ds
      (m, taken + 1)
    else (m, 0)

/-- The exponent as an integer. -/
def exponentValue : Option (Bool × List Nat) → Int
  | none => 0
  | some (negative, ds) =>
    let n : Nat := ds.foldl (fun n d => 10 * n + d) 0
    if negative then -(n : Int) else (n : Int)

/-- A whole number that fits 64 bits, after its sign. -/
def integer (negative : Bool) (m : Nat) : Number :=
  if !negative then .int m
  else if m = 0 ∨ wordSize / 2 < m then .float ((Binary64.ofInt m).withSign true)
  else .int (-m)

/-- The number of a numeral. -/
def number (n : Numeral) : Except Fault Number :=
  let (m, dropped) := wholeSignificand n.whole
  if n.fraction.isNone ∧ n.exponent.isNone ∧ dropped = 0 then .ok (integer n.negative m)
  else
    let (m, taken) := addFraction m (n.fraction.getD [])
    let exponent : Int := (dropped : Int) - (taken : Int) + exponentValue n.exponent
    match Binary64.ofScaledDecimal? n.negative m exponent with
    | some x => .ok (.float x)
    | none => .error .malformed

end Numeral

end Courier.Json
