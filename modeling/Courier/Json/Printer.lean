import Courier.Json.Basic
import Courier.Numeric.Shortest

/-!
# Writing JSON

`Value.render` writes a value on one line without spaces, and `Value.renderPretty` writes it over
several lines, two spaces deeper for each level. Both are the one printer `Value.chars` with another
`Spacing`.

In a text the quote, the backslash and the control characters below U+0020 are escaped, and every
other character stands for itself. An infinity or NaN has no JSON form and is written as `null`.
-/

namespace Courier.Json

open Courier.Numeric

/-! ## Leaves -/

/-- A hexadecimal digit in lower case. -/
def hexDigit (n : Nat) : Char :=
  if n < 10 then Char.ofNat (0x30 + n) else Char.ofNat (0x61 + (n - 10))

/-- A character as it stands inside a JSON text. -/
def escapeChar (c : Char) : List Char :=
  if c = '"' then ['\\', '"']
  else if c = '\\' then ['\\', '\\']
  else if c = '\x08' then ['\\', 'b']
  else if c = '\x0c' then ['\\', 'f']
  else if c = '\n' then ['\\', 'n']
  else if c = '\r' then ['\\', 'r']
  else if c = '\t' then ['\\', 't']
  else if c.toNat < 0x20 then
    ['\\', 'u', '0', '0', hexDigit (c.toNat / 16), hexDigit (c.toNat % 16)]
  else [c]

/-- A text between quotes. -/
def stringChars (s : String) : List Char :=
  '"' :: s.toList.flatMap escapeChar ++ ['"']

/-- Numbers are set positionally from `0.00001` up to sixteen digits before the point, always with
a point, and otherwise with a signed exponent. -/
def numberLayout : Layout where
  lowest := -5
  highest := 15
  wholeMark := ".0"
  plus := "+"

/-- A number. -/
def Number.chars : Number → List Char
  | .int n => if n < 0 then '-' :: digits n.natAbs else digits n.natAbs
  | .float (.finite negative significand scale) => numberLayout.text negative significand scale
  | .float (.infinite _) => "null".toList
  | .float .nan => "null".toList

/-! ## Values -/

/-- What stands between the tokens of a value. -/
structure Spacing where
  /-- What stands before an item, or before the closing bracket, at a level. -/
  gap : Nat → List Char
  /-- What stands between a name and its value. -/
  colon : List Char

/-- Nothing between the tokens. -/
def Spacing.compact : Spacing where
  gap _ := []
  colon := [':']

/-- Each item on a line of its own, two spaces in for each level. -/
def Spacing.pretty : Spacing where
  gap level := '\n' :: List.replicate (2 * level) ' '
  colon := [':', ' ']

mutual

/-- A value at a level. -/
def Value.chars (sp : Spacing) (level : Nat) : Value → List Char
  | .null => "null".toList
  | .bool true => "true".toList
  | .bool false => "false".toList
  | .number n => n.chars
  | .string s => stringChars s
  | .array [] => ['[', ']']
  | .array (v :: vs) =>
    '[' :: sp.gap (level + 1) ++ Value.chars sp (level + 1) v
      ++ itemsChars sp (level + 1) vs ++ sp.gap level ++ [']']
  | .object [] => ['\x7b', '\x7d']
  | .object ((name, v) :: ms) =>
    '\x7b' :: sp.gap (level + 1) ++ stringChars name ++ sp.colon ++ Value.chars sp (level + 1) v
      ++ membersChars sp (level + 1) ms ++ sp.gap level ++ ['\x7d']

/-- The items of an array after the first one. -/
def itemsChars (sp : Spacing) (level : Nat) : List Value → List Char
  | [] => []
  | v :: vs => ',' :: sp.gap level ++ Value.chars sp level v ++ itemsChars sp level vs

/-- The members of an object after the first one. -/
def membersChars (sp : Spacing) (level : Nat) : List (String × Value) → List Char
  | [] => []
  | (name, v) :: ms =>
    ',' :: sp.gap level ++ stringChars name ++ sp.colon ++ Value.chars sp level v
      ++ membersChars sp level ms

end

/-- A value on one line, without spaces. -/
def Value.render (v : Value) : String :=
  String.ofList (v.chars .compact 0)

/-- A value over several lines, indented by two spaces for each level. -/
def Value.renderPretty (v : Value) : String :=
  String.ofList (v.chars .pretty 0)

end Courier.Json
