/-!
# White space

Two classes of white space are in use: the Unicode property `White_Space` for trimming texts, and
the four ASCII characters that JSON allows between its tokens (those stand beside the reader).
-/

namespace Courier.Text

/-- The code points with the Unicode property `White_Space`. -/
def isBlank (c : Char) : Bool :=
  (0x9 ≤ c.toNat && c.toNat ≤ 0xD) || c.toNat == 0x20 || c.toNat == 0x85 || c.toNat == 0xA0
    || c.toNat == 0x1680 || (0x2000 ≤ c.toNat && c.toNat ≤ 0x200A) || c.toNat == 0x2028
    || c.toNat == 0x2029 || c.toNat == 0x202F || c.toNat == 0x205F || c.toNat == 0x3000

/-- A list without the elements at its end that satisfy `p`. -/
def dropEndWhile {α : Type} (p : α → Bool) (l : List α) : List α :=
  (l.reverse.dropWhile p).reverse

/-- A list without the elements at either end that satisfy `p`. -/
def stripWhile {α : Type} (p : α → Bool) (l : List α) : List α :=
  dropEndWhile p (l.dropWhile p)

/-- A text without the white space at its ends. -/
def trim (s : String) : String :=
  String.ofList (stripWhile isBlank s.toList)

/-- A text without the copies of `c` at its end. -/
def trimEnd (c : Char) (s : String) : String :=
  String.ofList (dropEndWhile (· == c) s.toList)

end Courier.Text
