import Courier.Text.Utf8

/-!
# Percent encoding

`encode` writes a text with unreserved characters only: letters, digits and `-`, `.`, `_`, `~`
stand for themselves, and every other octet of its UTF-8 form is a percent sign and two upper-case
hexadecimal digits. `decode?` is the way back. `escapeWhere` and `unescape` do the same where other
characters stand for themselves and where stray percent signs do.
-/

namespace Courier.Text.Percent

/-- The sixteen digits in upper case. -/
def hexDigit (n : Nat) : Char :=
  if n < 10 then Char.ofNat (0x30 + n) else Char.ofNat (0x41 + (n - 10))

/-- The value of a hexadecimal digit in either case. -/
def hexValue? (c : Char) : Option Nat :=
  if '0' ≤ c ∧ c ≤ '9' then some (c.toNat - 0x30)
  else if 'A' ≤ c ∧ c ≤ 'F' then some (c.toNat - 0x41 + 10)
  else if 'a' ≤ c ∧ c ≤ 'f' then some (c.toNat - 0x61 + 10)
  else none

/-- The characters that stand for themselves. -/
def isUnreserved (c : Char) : Bool :=
  ('a' ≤ c && c ≤ 'z') || ('A' ≤ c && c ≤ 'Z') || ('0' ≤ c && c ≤ '9')
    || c == '-' || c == '.' || c == '_' || c == '~'

/-- An octet as a percent sign and two digits. -/
def escape (b : UInt8) : List Char :=
  ['%', hexDigit (b.toNat / 16), hexDigit (b.toNat % 16)]

/-- An octet in an encoded text. -/
def encodeOctet (b : UInt8) : List Char :=
  let c := Char.ofNat b.toNat
  if isUnreserved c then [c] else escape b

/-- A text with unreserved characters and escapes only. -/
def encode (s : String) : String :=
  String.ofList ((octets s).flatMap encodeOctet)

/-- A text with escapes in place of the characters that satisfy `p`. -/
def escapeWhere (p : Char → Bool) (cs : List Char) : List Char :=
  cs.flatMap fun c => if p c then (String.utf8EncodeChar c).flatMap escape else [c]

/-- The octets that a text stands for if percent signs without two digits stand for themselves. -/
def unescape : List Char → List UInt8
  | [] => []
  | '%' :: a :: b :: rest =>
    match hexValue? a, hexValue? b with
    | some high, some low => UInt8.ofNat (16 * high + low) :: unescape rest
    | _, _ => String.utf8EncodeChar '%' ++ unescape (a :: b :: rest)
  | c :: rest => String.utf8EncodeChar c ++ unescape rest

/-- The octets that an encoded text stands for; a character that is neither unreserved nor part of
an escape stands for its own octets. Fails at a percent sign without two digits. -/
def decodeOctets? : List Char → Option (List UInt8)
  | [] => some []
  | '%' :: a :: b :: rest => do
    let high ← hexValue? a
    let low ← hexValue? b
    let tail ← decodeOctets? rest
    some (UInt8.ofNat (16 * high + low) :: tail)
  | c :: rest => do
    if c = '%' then none
    let tail ← decodeOctets? rest
    some (String.utf8EncodeChar c ++ tail)

/-- The text that an encoded text stands for. -/
def decode? (s : String) : Option String :=
  decodeOctets? s.toList >>= ofOctets?

end Courier.Text.Percent
