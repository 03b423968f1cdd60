/-!
# Quoted text in diagnostics

A diagnostic shows a text between double quotes. The quote, the backslash and the usual control
characters are written as two characters; a character that would not show, or would combine with
its neighbour, is written by its code point in hexadecimal between braces.
-/

namespace Courier.Text

/-- Ranges of code points outside ASCII that are not shown as they are: controls, joining and
combining marks, separators other than the space, invisible format characters, surrogates, private
use and the ends of the planes. -/
def hiddenRanges : List (Nat × Nat) :=
  [(0x7F, 0xA0), (0xAD, 0xAD), (0x300, 0x36F), (0x378, 0x379), (0x483, 0x489), (0x591, 0x5BD),
   (0x600, 0x605), (0x61C, 0x61C), (0x64B, 0x65F), (0x6DD, 0x6DD), (0x70F, 0x70F),
   (0x1680, 0x1680), (0x180E, 0x180E), (0x1AB0, 0x1ACE), (0x1DC0, 0x1DFF), (0x2000, 0x200F),
   (0x2028, 0x202F), (0x205F, 0x206F), (0x20D0, 0x20F0), (0x3000, 0x3000), (0x302A, 0x302F),
   (0x3099, 0x309A), (0xD800, 0xF8FF), (0xFE00, 0xFE0F), (0xFE20, 0xFE2F), (0xFEFF, 0xFEFF),
   (0xFFF0, 0xFFFB), (0xFFFE, 0xFFFF), (0xE0000, 0x10FFFF)]

/-- A character is shown as it is. -/
def isShown (c : Char) : Bool :=
  0x20 ≤ c.toNat && hiddenRanges.all fun r => c.toNat < r.1 || r.2 < c.toNat

/-- A character as it stands between the quotes. -/
def quotedChar (c : Char) : List Char :=
  if c = '"' then ['\\', '"']
  else if c = '\\' then ['\\', '\\']
  else if c = '\t' then ['\\', 't']
  else if c = '\r' then ['\\', 'r']
  else if c = '\n' then ['\\', 'n']
  else if c.toNat = 0 then ['\\', '0']
  else if isShown c then [c]
  else ['\\', 'u', '\x7b'] ++ Nat.toDigits 16 c.toNat ++ ['\x7d']

/-- A text between quotes. -/
def quoted (s : String) : String :=
  String.ofList ('"' :: s.toList.flatMap quotedChar ++ ['"'])

/-- An optional item: its text inside `Some(…)`, or `None`. -/
def shownOption : Option String → String
  | some shown => "Some(" ++ shown ++ ")"
  | none => "None"

end Courier.Text
