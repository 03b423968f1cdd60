import Courier.Text.Utf8

/-!
# Header names and values

A header has a name, which is compared in lower case, and a value. Names are made of the characters
that stand in a token; a value is one line of text. What a peer sends in a value is octets, and
counts as text only where it is ASCII that shows.
-/

namespace Courier.Http.Header

/-- The characters of a name: letters, digits and a few marks. -/
def isNameChar (c : Char) : Bool :=
  c.isAlphanum || "!#$%&'*+-.^_`|~".toList.contains c

/-- How many characters a name may have. -/
def longestName : Nat := 65535

/-- A text can be the name of a header. -/
def isName (s : String) : Bool :=
  !s.isEmpty && s.toList.all isNameChar && s.length ≤ longestName

/-- The name of a header as it is compared and sent. -/
def name? (s : String) : Option String :=
  if isName s then some (String.ofList (s.toList.map Char.toLower)) else none

/-- The characters of a value: no controls but the tab. -/
def isValueChar (c : Char) : Bool :=
  c == '\t' || (0x20 ≤ c.toNat && c.toNat ≠ 0x7F)

/-- A text can be the value of a header. -/
def isValue (s : String) : Bool :=
  s.toList.all isValueChar

/-- An octet that shows as ASCII, or a tab. -/
def isVisible (b : UInt8) : Bool :=
  b == 0x09 || (0x20 ≤ b && b < 0x7F)

/-- The text of a value that a peer sent. -/
def text? (value : List UInt8) : Option String :=
  if value.all isVisible then some (String.ofList (value.map fun b => Char.ofNat b.toNat)) else none

end Courier.Http.Header
