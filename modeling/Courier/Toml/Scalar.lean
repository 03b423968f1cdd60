import Courier.Text.Reader
import Courier.Time.Calendar
import Courier.Toml.Value

/-!
# Numbers, truth values and times in TOML

All of them are words without quotes, and `scalar?` says what a word stands for. A number may have
single underscores between its digits. Dates and times have to exist; their text is kept in one
form: `T` between date and time, `Z` for no offset, no zeros at the end of a fraction.
-/

namespace Courier.Toml

open Courier.Numeric Courier.Text

/-! ## Numbers -/

/-- The digits of a number without its underscores, each of which has to stand between two
digits. -/
def withoutUnderscores? (isDigit : Char → Bool) : List Char → Option (List Char)
  | [] => none
  | [c] => if isDigit c then some [c] else none
  | c :: '_' :: rest =>
    if isDigit c then (withoutUnderscores? isDigit rest).map (c :: ·) else none
  | c :: d :: rest =>
    if isDigit c then (withoutUnderscores? isDigit (d :: rest)).map (c :: ·) else none

/-- The value of a digit in any base up to sixteen. -/
def baseDigit (c : Char) : Nat :=
  if c.isDigit then c.toNat - 0x30 else c.toLower.toNat - 0x61 + 10

/-- A digit of a base up to sixteen. -/
def isBaseDigit (base : Nat) (c : Char) : Bool :=
  (c.isDigit || ('a' ≤ c && c ≤ 'f') || ('A' ≤ c && c ≤ 'F')) && baseDigit c < base

/-- A natural number in a base. -/
def natural? (base : Nat) (cs : List Char) : Option Nat :=
  (withoutUnderscores? (isBaseDigit base) cs).map
    (List.foldl (fun n c => base * n + baseDigit c) 0)

/-- Decimal digits that do not start with a zero, or a zero alone. -/
def decimalDigits? (cs : List Char) : Option (List Char) :=
  match withoutUnderscores? Char.isDigit cs with
  | some ('0' :: _ :: _) => none
  | ds => ds

/-- A sign in front, as whether it is a minus, and what follows it. -/
def splitSign : List Char → Bool × List Char
  | '-' :: rest => (true, rest)
  | '+' :: rest => (false, rest)
  | rest => (false, rest)

/-- A number with its sign. -/
def signed (negative : Bool) (n : Nat) : Int :=
  if negative then -(n : Int) else n

/-- A whole number: decimal with a sign, or in another base without. It has to fit 128 bits. -/
def integer? (cs : List Char) : Option Int := do
  let n ← match cs with
    | '0' :: 'x' :: ds => (natural? 16 ds).map Int.ofNat
    | '0' :: 'o' :: ds => (natural? 8 ds).map Int.ofNat
    | '0' :: 'b' :: ds => (natural? 2 ds).map Int.ofNat
    | cs =>
      let (negative, ds) := splitSign cs
      (decimalDigits? ds).map fun ds => signed negative (ofDigits ds)
  if -(Nat.pow 2 127 : Int) ≤ n ∧ n < (Nat.pow 2 128 : Int) then some n else none

/-- The number that a word with a point or an exponent stands for. -/
def decimal? (cs : List Char) : Option Binary64 := do
  let (negative, body) := splitSign cs
  let isMark (c : Char) := c == 'e' || c == 'E'
  let (mantissa, tail) := body.span (fun c => !isMark c)
  let (wholePart, fractionPart) := mantissa.span (· != '.')
  if tail.isEmpty ∧ fractionPart.isEmpty then none
  let whole ← decimalDigits? wholePart
  let fraction ← match fractionPart with
    | [] => some []
    | _ :: ds => withoutUnderscores? Char.isDigit ds
  let exponent : Int ← match tail with
    | [] => some 0
    | _ :: cs =>
      let (below, ds) := splitSign cs
      (withoutUnderscores? Char.isDigit ds).map fun ds => signed below (ofDigits ds)
  let x := Binary64.ofDecimal negative (ofDigits (whole ++ fraction)) (exponent - fraction.length)
  if x.isFinite then some x else none

/-- A binary64 number. -/
def float? (cs : List Char) : Option Binary64 :=
  let (negative, body) := splitSign cs
  if body = ['i', 'n', 'f'] then some (.infinite negative)
  else if body = ['n', 'a', 'n'] then some .nan
  else decimal? cs

/-! ## Dates and times -/

/-- A number of exactly `width` digits. -/
def readFixed (width : Nat) : Reader Nat := fun cs =>
  (Reader.exactly Char.isDigit width cs).map fun (ds, rest) => (ofDigits ds, rest)

/-- A date, and its text. -/
def readDate : Reader (List Char) := fun cs => do
  let (year, rest) ← readFixed 4 cs
  let ((), rest) ← Reader.char '-' rest
  let (month, rest) ← readFixed 2 rest
  let ((), rest) ← Reader.char '-' rest
  let (day, rest) ← readFixed 2 rest
  let date : Time.Date := ⟨year, month, day⟩
  if date.Valid then some (cs.take 10, rest) else none

/-- A fraction of a second as it is kept: nine digits at most, without zeros at the end. -/
def keptFraction (ds : List Char) : List Char :=
  match ((ds.take 9).reverse.dropWhile (· == '0')).reverse with
  | [] => []
  | kept => '.' :: kept

/-- A time of day, and its text. -/
def readTime : Reader (List Char) := fun cs => do
  let (hour, rest) ← readFixed 2 cs
  let ((), rest) ← Reader.char ':' rest
  let (minute, rest) ← readFixed 2 rest
  let ((), rest) ← Reader.char ':' rest
  let (second, rest) ← readFixed 2 rest
  if 24 ≤ hour ∨ 60 ≤ minute ∨ 60 < second then none
  match rest with
  | '.' :: rest =>
    match Reader.run Char.isDigit rest with
    | ([], _) => none
    | (ds, rest) => some (cs.take 8 ++ keptFraction ds, rest)
  | rest => some (cs.take 8, rest)

/-- An offset from UTC, if there is one, and its text. -/
def readZone : Reader (List Char) := fun cs =>
  match cs with
  | [] => some ([], [])
  | c :: rest =>
    if c = 'Z' ∨ c = 'z' then some (['Z'], rest)
    else if c = '+' ∨ c = '-' then do
      let (hours, rest) ← readFixed 2 rest
      let ((), rest) ← Reader.char ':' rest
      let (minutes, rest) ← readFixed 2 rest
      if 24 ≤ hours ∨ 60 ≤ minutes then none else some (cs.take 6, rest)
    else none

/-- What stands between a date and a time. -/
def isTimeMark (c : Char) : Bool :=
  c == 'T' || c == 't' || c == ' '

/-- A date and a time with an offset, a date and a time, or a date. -/
def readDateTime : Reader (List Char) := fun cs => do
  let (date, rest) ← readDate cs
  match rest with
  | [] => some (date, [])
  | mark :: rest =>
    if !isTimeMark mark then none
    let (time, rest) ← readTime rest
    let (zone, rest) ← readZone rest
    some (date ++ 'T' :: time ++ zone, rest)

/-- A date, a time, or both. -/
def dateTime? (cs : List Char) : Option String :=
  ((Reader.whole? readDateTime cs).or (Reader.whole? readTime cs)).map String.ofList

/-! ## Words -/

/-- What a word stands for. -/
def scalar? (cs : List Char) : Option Value :=
  if cs = "true".toList then some (.bool true)
  else if cs = "false".toList then some (.bool false)
  else
    (integer? cs).map .int
      |>.or ((float? cs).map .float)
      |>.or ((dateTime? cs).map .dateTime)

/-- A character of a word. -/
def isWordChar (c : Char) : Bool :=
  c.isAlphanum || c == '_' || c == '-' || c == '+' || c == '.' || c == ':'

/-- The word in front. The space between a date and a time belongs to it. -/
def wordAndRest (cs : List Char) : List Char × List Char :=
  let (word, rest) := Reader.run isWordChar cs
  match rest with
  | ' ' :: d :: more =>
    if (Reader.whole? readDate word).isSome ∧ d.isDigit then
      let (time, rest) := Reader.run isWordChar (d :: more)
      (word ++ ' ' :: time, rest)
    else (word, rest)
  | _ => (word, rest)

/-- A scalar without quotes. -/
def readScalar : Reader Value := fun cs =>
  let (word, rest) := wordAndRest cs
  (scalar? word).map (·, rest)

end Courier.Toml
