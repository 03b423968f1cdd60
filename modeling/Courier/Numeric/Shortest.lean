import Courier.Numeric.Binary64

/-!
# The shortest decimal of a binary64 number

Each finite number has an interval of reals that round to it. `shortest` takes the fewest digits
that fall into it: for 1, 2, … 17 digits it looks at the two neighbours of the number on that
decimal grid, and the first grid with a neighbour in the interval wins. Of two neighbours the nearer
one is taken, and of two equally near the even one. All of it is exact arithmetic on natural
numbers.

`Layout` says how the digits are set: which exponents are written positionally, and how the others
are. `Layout.text` does it.
-/

namespace Courier.Numeric

/-! ## Choosing the digits -/

/-- The number `significand · 10 ^ exponent`. -/
structure Scientific where
  /-- The digits, as a number. -/
  significand : Nat
  /-- The power of ten they are taken times. -/
  exponent : Int
  deriving DecidableEq, Repr

/-- The exponent of the leading digit of `num / den`, for positive numbers. -/
def leadingExponent (num den : Nat) : Int :=
  if den ≤ num then (digits (num / den)).length - 1
  else -((digits ((den + num - 1) / num - 1)).length : Int)

/-- The neighbour of a number on the grid of step `10 ^ exponent` that lies in the interval of the
reals that round to it, if there is one. The number is `significand · 2 ^ scale` units. -/
def gridPoint? (significand scale : Nat) (exponent : Int) : Option Nat :=
  let num := significand * Nat.pow 2 scale * Nat.pow 10 (-exponent).toNat
  let den := Binary64.unitsPerOne * Nat.pow 10 exponent.toNat
  let gap := Nat.pow 2 scale * Nat.pow 10 (-exponent).toNat
  -- all distances in quarters of `den`; below a power of two the numbers are twice as dense
  let above := 2 * gap
  let below := if significand = Nat.pow 2 52 ∧ scale ≠ 0 then gap else 2 * gap
  let closed := significand % 2 = 0
  let low := num / den
  let high := low + 1
  let lowBy := 4 * num - 4 * low * den
  let highBy := 4 * high * den - 4 * num
  let lowIn := low ≠ 0 ∧ (if closed then lowBy ≤ below else lowBy < below)
  let highIn := if closed then highBy ≤ above else highBy < above
  if lowIn ∧ highIn then
    if lowBy < highBy ∨ (lowBy = highBy ∧ low % 2 = 0) then some low else some high
  else if lowIn then some low
  else if highIn then some high
  else none

/-- The same number without zeros at the end of its significand. -/
def Scientific.trimmed (x : Scientific) : Scientific :=
  if 0 < x.significand ∧ x.significand % 10 = 0 then
    trimmed ⟨x.significand / 10, x.exponent + 1⟩
  else x
termination_by x.significand

/-- The shortest decimal that reads back as `significand · 2 ^ scale` units. -/
def shortest (significand scale : Nat) : Scientific :=
  if significand = 0 then ⟨0, 0⟩
  else
    let lead := leadingExponent (significand * Nat.pow 2 scale) Binary64.unitsPerOne
    let found := (List.range 17).findSome? fun (n : Nat) =>
      (gridPoint? significand scale (lead - n)).map fun d => Scientific.mk d (lead - n)
    (found.getD ⟨0, 0⟩).trimmed

/-! ## Setting them -/

/-- How a decimal is set. -/
structure Layout where
  /-- The lowest exponent of a leading digit that is written positionally. -/
  lowest : Int
  /-- The highest one. -/
  highest : Int
  /-- What stands after a whole number that is written positionally. -/
  wholeMark : String
  /-- What stands before a positive exponent. -/
  plus : String

/-- A decimal with its point in place. -/
def Layout.positional (l : Layout) (ds : List Char) (lead : Int) : List Char :=
  if lead < 0 then
    ['0', '.'] ++ List.replicate ((-lead).toNat - 1) '0' ++ ds
  else
    let whole := lead.toNat + 1
    if ds.length ≤ whole then
      ds ++ List.replicate (whole - ds.length) '0' ++ l.wholeMark.toList
    else ds.take whole ++ '.' :: ds.drop whole

/-- A decimal with an exponent. -/
def Layout.exponential (l : Layout) (ds : List Char) (lead : Int) : List Char :=
  let mantissa :=
    match ds with
    | d :: e :: rest => d :: '.' :: e :: rest
    | short => short
  let sign := if lead < 0 then "-" else l.plus
  mantissa ++ 'e' :: sign.toList ++ digits lead.natAbs

/-- The text of a finite number. -/
def Layout.text (l : Layout) (negative : Bool) (significand scale : Nat) : List Char :=
  let x := shortest significand scale
  let ds := digits x.significand
  let lead := x.exponent + ds.length - 1
  let body :=
    if l.lowest ≤ lead ∧ lead ≤ l.highest then l.positional ds lead else l.exponential ds lead
  if negative then '-' :: body else body

end Courier.Numeric
