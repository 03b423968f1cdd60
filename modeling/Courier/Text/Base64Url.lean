/-!
# Unpadded base64 for URLs

Three octets are four symbols of the alphabet `A`–`Z`, `a`–`z`, `0`–`9`, `-`, `_`; one or two octets
at the end are two or three symbols, with the unused low bits zero, and nothing pads them. Only what
`encode` writes is read back.

The faults name an octet and its place. They are looked for in this order: an unknown last symbol
that stands alone in its group, unknown symbols from the left, a group of a single symbol, padding
at the end, and unused bits that are set.
-/

namespace Courier.Text.Base64Url

/-! ## Symbols -/

/-- The symbol of a six-bit number. -/
def symbol (n : Nat) : Char :=
  if n < 26 then Char.ofNat (0x41 + n)
  else if n < 52 then Char.ofNat (0x61 + (n - 26))
  else if n < 62 then Char.ofNat (0x30 + (n - 52))
  else if n = 62 then '-'
  else '_'

/-- The six-bit number of a symbol, given by its octet. -/
def value? (b : UInt8) : Option Nat :=
  let n := b.toNat
  if 0x41 ≤ n ∧ n ≤ 0x5A then some (n - 0x41)
  else if 0x61 ≤ n ∧ n ≤ 0x7A then some (n - 0x61 + 26)
  else if 0x30 ≤ n ∧ n ≤ 0x39 then some (n - 0x30 + 52)
  else if n = 0x2D then some 62
  else if n = 0x5F then some 63
  else none

/-- The octet that would pad a group. -/
def pad : UInt8 := 0x3D

/-! ## Writing -/

/-- The symbols of some octets. -/
def encodeChars : List UInt8 → List Char
  | [] => []
  | [a] =>
    [symbol (a.toNat / 4), symbol (a.toNat % 4 * 16)]
  | [a, b] =>
    [symbol (a.toNat / 4), symbol (a.toNat % 4 * 16 + b.toNat / 16), symbol (b.toNat % 16 * 4)]
  | a :: b :: c :: rest =>
    symbol (a.toNat / 4) :: symbol (a.toNat % 4 * 16 + b.toNat / 16)
      :: symbol (b.toNat % 16 * 4 + c.toNat / 64) :: symbol (c.toNat % 64) :: encodeChars rest

/-- The symbols of some octets, as a text. -/
def encode (bytes : List UInt8) : String :=
  String.ofList (encodeChars bytes)

/-! ## Reading -/

/-- Why some octets are not unpadded base64. -/
inductive Fault where
  /-- The octet `byte` at `offset` is no symbol. -/
  | symbol (byte : UInt8) (offset : Nat)
  /-- A text of `length` symbols ends with a group of one. -/
  | single (length : Nat)
  /-- The last symbol, `byte` at `offset`, sets bits that belong to no octet. -/
  | lastSymbol (byte : UInt8) (offset : Nat)
  /-- The last group is padded. -/
  | padding
  deriving DecidableEq

/-- The wording of a fault. -/
def Fault.message : Fault → String
  | .symbol byte offset =>
    "Invalid symbol " ++ toString byte.toNat ++ ", offset " ++ toString offset ++ "."
  | .single length => "Invalid input length: " ++ toString length
  | .lastSymbol byte offset =>
    "Invalid last symbol " ++ toString byte.toNat ++ ", offset " ++ toString offset ++ "."
  | .padding => "Invalid padding"

/-- The six-bit number of the octet at `offset`. -/
def digit (offset : Nat) (b : UInt8) : Except Fault Nat :=
  match value? b with
  | some n => .ok n
  | none => .error (.symbol b offset)

/-- The octets of a last group of two symbols. -/
def pair (offset : Nat) (a b : UInt8) : Except Fault (List UInt8) := do
  let x ← digit offset a
  let y ← digit (offset + 1) b
  if y % 16 ≠ 0 then throw (.lastSymbol b (offset + 1))
  return [UInt8.ofNat (x * 4 + y / 16)]

/-- The octets of a last group of three symbols. -/
def triple (offset : Nat) (a b c : UInt8) : Except Fault (List UInt8) := do
  let x ← digit offset a
  let y ← digit (offset + 1) b
  let z ← digit (offset + 2) c
  if z % 4 ≠ 0 then throw (.lastSymbol c (offset + 2))
  return [UInt8.ofNat (x * 4 + y / 16), UInt8.ofNat (y % 16 * 16 + z / 4)]

/-- The octets of a group of four symbols. -/
def quad (offset : Nat) (a b c d : UInt8) : Except Fault (List UInt8) := do
  let x ← digit offset a
  let y ← digit (offset + 1) b
  let z ← digit (offset + 2) c
  let w ← digit (offset + 3) d
  return [UInt8.ofNat (x * 4 + y / 16), UInt8.ofNat (y % 16 * 16 + z / 4),
    UInt8.ofNat (z % 4 * 64 + w)]

/-- A last group with padding after some symbols: the symbols are looked at first. -/
def padded (symbols : List (Except Fault Nat)) : Except Fault (List UInt8) := do
  let _ ← symbols.mapM id
  throw .padding

/-- The octets of the last group, which starts at `offset`. -/
def lastGroup (offset : Nat) : List UInt8 → Except Fault (List UInt8)
  | [] => .ok []
  | [a] => do
    let _ ← digit offset a
    throw (.single (offset + 1))
  | [a, b] => pair offset a b
  | [a, b, c] =>
    if c = pad then padded [digit offset a, digit (offset + 1) b]
    else triple offset a b c
  | a :: b :: c :: d :: _ =>
    if c = pad ∧ d = pad then padded [digit offset a, digit (offset + 1) b]
    else if d = pad then padded [digit offset a, digit (offset + 1) b, digit (offset + 2) c]
    else quad offset a b c d

/-- The octets of the groups from `offset` on. -/
def groups (offset : Nat) : List UInt8 → Except Fault (List UInt8)
  | a :: b :: c :: d :: e :: rest => do
    let front ← quad offset a b c d
    let back ← groups (offset + 4) (e :: rest)
    return front ++ back
  | l => lastGroup offset l

/-- The octets that some octets of unpadded base64 stand for. -/
def decodeOctets (bytes : List UInt8) : Except Fault (List UInt8) :=
  match bytes.getLast? with
  | some b =>
    if bytes.length % 4 = 1 ∧ b ≠ pad ∧ value? b = none then
      .error (.symbol b (bytes.length - 1))
    else groups 0 bytes
  | none => .ok []

end Courier.Text.Base64Url
