import Courier.Json.Numeral
import Courier.Text.Utf8

/-!
# Texts in a JSON text

The octets after an opening quote are cut into pieces, each an octet of the text or a 16-bit unit
from an escape (`scanPieces`). That much a skipper does. A reader then puts the pieces together
(`assemble`): a unit from a surrogate pair needs its partner, and the octets have to be UTF-8.
-/

namespace Courier.Json

open Courier.Text

/-- A piece of a text. -/
inductive Piece where
  /-- An octet of the text. -/
  | octet (b : UInt8)
  /-- A 16-bit unit, given by four hexadecimal digits. -/
  | unit (n : Nat)
  deriving DecidableEq

/-- The value of a hexadecimal digit in either case. -/
def hexValue? (b : UInt8) : Option Nat :=
  let n := b.toNat
  if 0x30 ≤ n ∧ n ≤ 0x39 then some (n - 0x30)
  else if 0x41 ≤ n ∧ n ≤ 0x46 then some (n - 0x41 + 10)
  else if 0x61 ≤ n ∧ n ≤ 0x66 then some (n - 0x61 + 10)
  else none

/-- The unit of four hexadecimal digits. -/
def hexUnit? (a b c d : UInt8) : Option Nat := do
  let a ← hexValue? a
  let b ← hexValue? b
  let c ← hexValue? c
  let d ← hexValue? d
  some (((a * 16 + b) * 16 + c) * 16 + d)

/-- The octet that a one-letter escape stands for. -/
def unescape? (b : UInt8) : Option UInt8 :=
  if isChar '"' b || isChar '\\' b || isChar '/' b then some b
  else if isChar 'b' b then some 0x08
  else if isChar 'f' b then some 0x0C
  else if isChar 'n' b then some 0x0A
  else if isChar 'r' b then some 0x0D
  else if isChar 't' b then some 0x09
  else none

/-- A result with one more piece in front. -/
def Piece.onto (p : Piece) (scanned : List Piece × Except Fault (List UInt8)) :
    List Piece × Except Fault (List UInt8) :=
  (p :: scanned.1, scanned.2)

/-- The pieces of a text up to its closing quote, and what follows the quote; or the pieces up to a
fault. -/
def scanPieces : List UInt8 → List Piece × Except Fault (List UInt8)
  | [] => ([], .error .truncated)
  | b :: rest =>
    if isChar '"' b then ([], .ok rest)
    else if isChar '\\' b then
      match rest with
      | [] => ([], .error .truncated)
      | e :: rest =>
        if isChar 'u' e then
          match rest with
          | a :: b :: c :: d :: rest =>
            match hexUnit? a b c d with
            | some n => (Piece.unit n).onto (scanPieces rest)
            | none => ([], .error .malformed)
          | _ => ([], .error .truncated)
        else
          match unescape? e with
          | some o => (Piece.octet o).onto (scanPieces rest)
          | none => ([], .error .malformed)
    else if b.toNat < 0x20 then ([], .error .malformed)
    else (Piece.octet b).onto (scanPieces rest)

/-- The first unit of a surrogate pair. -/
def isLeading (n : Nat) : Bool :=
  0xD800 ≤ n && n ≤ 0xDBFF

/-- The second unit of a surrogate pair. -/
def isTrailing (n : Nat) : Bool :=
  0xDC00 ≤ n && n ≤ 0xDFFF

/-- The octets of a code point. -/
def codeOctets (n : Nat) : List UInt8 :=
  String.utf8EncodeChar (Char.ofNat n)

/-- The octets of the pieces of a text. `ending` is the fault where the pieces end in the middle of
a surrogate pair. -/
def assemble (ending : Fault) : List Piece → Except Fault (List UInt8)
  | [] => .ok []
  | .octet b :: ps => (assemble ending ps).map (b :: ·)
  | [.unit n] =>
    if isTrailing n then .error .malformed
    else if isLeading n then .error ending
    else .ok (codeOctets n)
  | .unit n :: .octet b :: ps =>
    if isTrailing n || isLeading n then .error .malformed
    else (assemble ending ps).map fun tail => codeOctets n ++ b :: tail
  | .unit n :: .unit m :: ps =>
    if isTrailing n then .error .malformed
    else if isLeading n then
      if isTrailing m then
        (assemble ending ps).map
          (codeOctets ((n - 0xD800) * 0x400 + (m - 0xDC00) + 0x10000) ++ ·)
      else .error .malformed
    else (assemble ending (.unit m :: ps)).map (codeOctets n ++ ·)

/-- The text after an opening quote, which may turn out unreadable, and what follows it. -/
def scanText (bytes : List UInt8) : Except Break (Except Fault String × List UInt8) :=
  match scanPieces bytes with
  | (pieces, .ok rest) =>
    let text := do
      match ofOctets? (← assemble .malformed pieces) with
      | some s => .ok s
      | none => .error .malformed
    .ok (text, rest)
  | (pieces, .error f) =>
    match assemble f pieces with
    | .ok _ => .error (.both f)
    | .error g => .error ⟨g, f⟩

end Courier.Json
