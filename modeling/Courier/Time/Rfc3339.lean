import Courier.Numeric.Decimal
import Courier.Text.Blank
import Courier.Text.Reader
import Courier.Time.Instant

/-!
# Instants as text

`Instant.text` writes an instant in UTC after RFC 3339: four digits for the years 0 to 9999 and a
sign and at least four digits for the others, a fraction of 0, 3, 6 or 9 digits, and second 60 for
a leap second.

`Instant.ofText?` reads more than that: numbers without leading zeros, white space around the
separators, any fraction (digits after the ninth are dropped), and any offset of whole minutes below
a day. It fails for days and times that do not exist.
-/

namespace Courier.Time

open Courier.Numeric Courier.Text

/-! ## Writing -/

/-- A year: four digits, or a sign and at least four. -/
def yearChars (year : Int) : List Char :=
  if 0 ≤ year ∧ year ≤ 9999 then paddedDigits 4 year.natAbs
  else (if year < 0 then '-' else '+') :: paddedDigits 4 year.natAbs

/-- A fraction of a second, as short as 0, 3, 6 or 9 digits allow. -/
def fractionChars (nanos : Nat) : List Char :=
  if nanos = 0 then []
  else if nanos % 1000000 = 0 then '.' :: paddedDigits 3 (nanos / 1000000)
  else if nanos % 1000 = 0 then '.' :: paddedDigits 6 (nanos / 1000)
  else '.' :: paddedDigits 9 nanos

namespace Instant

/-- The characters of an instant. -/
def chars (t : Instant) : List Char :=
  let date := Date.ofDayNumber (t.seconds / secondsPerDay)
  let ofDay := (t.seconds % secondsPerDay).toNat
  let second := ofDay % 60 + t.nanos / nanosPerSecond
  yearChars date.year ++ '-' :: paddedDigits 2 date.month ++ '-' :: paddedDigits 2 date.day
    ++ 'T' :: paddedDigits 2 (ofDay / 3600) ++ ':' :: paddedDigits 2 (ofDay / 60 % 60)
    ++ ':' :: paddedDigits 2 second ++ fractionChars (t.nanos % nanosPerSecond) ++ ['Z']

/-- The text of an instant. -/
def text (t : Instant) : String :=
  String.ofList t.chars

end Instant

/-! ## Reading -/

/-- A text without white space in front. -/
def skipBlanks (cs : List Char) : List Char :=
  cs.dropWhile isBlank

/-- The digits in front, `width` at most, as a number. -/
def readDigits (width : Nat) : Reader Nat := fun cs =>
  let ds := (cs.take width).takeWhile Char.isDigit
  if ds.isEmpty then none else some (ofDigits ds, cs.drop ds.length)

/-- All digits in front, as a number. -/
def readAllDigits : Reader Nat := fun cs =>
  readDigits cs.length cs

/-- A number of at most `width` digits after white space. -/
def readNumber (width : Nat) : Reader Nat := fun cs =>
  readDigits width (skipBlanks cs)

/-- A year: four digits at most, or a sign and any number of digits. -/
def readYear : Reader Int := fun cs =>
  match skipBlanks cs with
  | '-' :: rest => (readAllDigits rest).map fun (n, rest) => (-(n : Int), rest)
  | '+' :: rest => (readAllDigits rest).map fun (n, rest) => ((n : Int), rest)
  | rest => (readDigits 4 rest).map fun (n, rest) => ((n : Int), rest)

/-- A separator after white space. -/
def readSeparator (c : Char) : Reader Unit := fun cs =>
  match skipBlanks cs with
  | d :: rest => if c = d then some ((), rest) else none
  | [] => none

/-- A fraction of a second in nanoseconds, if there is one. -/
def readFraction : Reader Nat
  | '.' :: rest => do
    let ds := (rest.take 9).takeWhile Char.isDigit
    if ds.isEmpty then none
    else some (ofDigits ds * Nat.pow 10 (9 - ds.length), rest.dropWhile Char.isDigit)
  | rest => some (0, rest)

/-- A digit in front. -/
def readDigit : Reader Nat := fun cs =>
  match cs with
  | c :: rest => if c.isDigit then some (digitValue c, rest) else none
  | [] => none

/-- Two digits in front. -/
def readTwoDigits : Reader Nat := fun cs => do
  let (tens, rest) ← readDigit cs
  let (ones, rest) ← readDigit rest
  some (10 * tens + ones, rest)

/-- The sign of an offset; a minus sign may be the typographic one. -/
def readSign : Reader Int
  | '+' :: rest => some (1, rest)
  | '-' :: rest => some (-1, rest)
  | '\u2212' :: rest => some (-1, rest)
  | _ => none

/-- An offset of hours and minutes in seconds. Colons and white space may stand between the two. -/
def readSignedOffset : Reader Int := fun cs => do
  let (sign, rest) ← readSign cs
  let (hours, rest) ← readTwoDigits rest
  let (minutes, rest) ← readTwoDigits (rest.dropWhile fun c => c == ':' || isBlank c)
  if 60 ≤ minutes then none
  some (sign * (3600 * hours + 60 * minutes), rest)

/-- An offset from UTC in seconds: a letter Z, the word UTC, or hours and minutes. -/
def readOffset : Reader Int := fun cs =>
  match cs with
  | 'Z' :: rest => some (0, rest)
  | 'z' :: rest => some (0, rest)
  | a :: b :: c :: rest =>
    if [a, b, c].map Char.toUpper = ['U', 'T', 'C'] then some (0, rest) else readSignedOffset cs
  | _ => readSignedOffset cs

/-- The mark between a day and a time. -/
def readTimeMark : Reader Unit
  | 'T' :: rest => some ((), rest)
  | 't' :: rest => some ((), rest)
  | ' ' :: rest => some ((), rest)
  | _ => none

/-- The first year that days may lie in. -/
def firstYear : Int := -262143

/-- The last one. -/
def lastYear : Int := 262142

/-- The instant of a day, a time of day and an offset, if all of them exist. -/
def Instant.ofFields? (date : Date) (hour minute second nanos : Nat) (offset : Int) :
    Option Instant :=
  if date.Valid ∧ firstYear ≤ date.year ∧ date.year ≤ lastYear ∧ hour < 24 ∧ minute < 60
      ∧ second ≤ 60 ∧ -secondsPerDay < offset ∧ offset < secondsPerDay then
    let leap := second = 60
    let seconds := date.dayNumber * secondsPerDay + 3600 * hour + 60 * minute
      + (if leap then 59 else second : Nat) - offset
    Instant.of? seconds (if leap then nanos + nanosPerSecond else nanos)
  else none

/-- The instant at the front of a text. -/
def readInstant : Reader Instant := fun cs => do
  let (year, cs) ← readYear cs
  let ((), cs) ← readSeparator '-' cs
  let (month, cs) ← readNumber 2 cs
  let ((), cs) ← readSeparator '-' cs
  let (day, cs) ← readNumber 2 cs
  let ((), cs) ← readTimeMark cs
  let (hour, cs) ← readNumber 2 cs
  let ((), cs) ← readSeparator ':' cs
  let (minute, cs) ← readNumber 2 cs
  let ((), cs) ← readSeparator ':' cs
  let (second, cs) ← readNumber 2 cs
  let (nanos, cs) ← readFraction cs
  let (offset, cs) ← readOffset (skipBlanks cs)
  let t ← Instant.ofFields? ⟨year, month, day⟩ hour minute second nanos offset
  some (t, cs)

/-- The instant that a text holds, with nothing but white space around it. -/
def Instant.ofText? (s : String) : Option Instant := do
  let (t, rest) ← readInstant s.toList
  if (skipBlanks rest).isEmpty then some t else none

end Courier.Time
