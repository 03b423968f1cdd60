import Courier.Numeric.Decimal
import Courier.Text.Percent
import Courier.Text.Split

/-!
# Hosts

A host is a name, an address of four octets or an address of eight words in brackets. One host has
many spellings: names in any case, with escapes; addresses with octal and hexadecimal numbers, with
a run of zero words left out. `normalize?` gives the one spelling that stands for all of them.
Names are ASCII.
-/

namespace Courier.Http.Host

open Courier.Numeric Courier.Text

/-! ## Numbers -/

/-- The number that some digits of a base up to sixteen stand for; no digits stand for zero. -/
def ofRadix? (base : Nat) (cs : List Char) : Option Nat :=
  cs.foldlM (fun n c => do
    let d ← Percent.hexValue? c
    if d < base then some (base * n + d) else none) 0

/-- The number that a part of an address of four octets stands for: hexadecimal after `0x`, octal
after a zero, else decimal. -/
def number? : List Char → Option Nat
  | [] => none
  | '0' :: 'x' :: rest => ofRadix? 16 rest
  | '0' :: 'X' :: rest => ofRadix? 16 rest
  | '0' :: c :: rest => ofRadix? 8 (c :: rest)
  | c :: rest => ofRadix? 10 (c :: rest)

/-! ## Addresses of four octets -/

/-- The parts of a name between dots, without the empty one after a dot at its end. -/
def labels (cs : List Char) : List (List Char) :=
  match (parts '.' cs).reverse with
  | [] :: label :: rest => (label :: rest).reverse
  | all => all.reverse

/-- A name is meant as an address: its last part is a number, well-formed or not. -/
def endsInNumber (cs : List Char) : Bool :=
  match (labels cs).getLast? with
  | some last => (!last.isEmpty && last.all Char.isDigit) || (number? last).isSome
  | none => false

/-- The value of an address whose first numbers are octets and whose last one fills the rest. -/
def ofNumbers? : Nat → List Nat → Option Nat
  | _, [] => none
  | left, [last] => if last < Nat.pow 256 left then some last else none
  | left + 1, n :: rest => do
    let tail ← ofNumbers? left rest
    if n < 256 then some (n * Nat.pow 256 left + tail) else none
  | 0, _ :: _ => none

/-- The value of an address of four octets. -/
def quad? (cs : List Char) : Option Nat := do
  let numbers ← (labels cs).mapM number?
  ofNumbers? 4 numbers

/-- An address of four octets in its usual form. -/
def quadText (n : Nat) : List Char :=
  ['.'].intercalate ([3, 2, 1, 0].map fun k => digits (n / Nat.pow 256 k % 256))

/-! ## Addresses of eight words -/

/-- Exactly four decimal octets, as they may end an address of words; they count as two words. -/
def octetWords? (cs : List Char) : Option (List Nat) := do
  let numbers ← (parts '.' cs).mapM fun part => do
    if part = [] ∨ (1 < part.length ∧ part.head? = some '0') then none
    ofRadix? 10 part
  match numbers with
  | [a, b, c, d] =>
    if numbers.all (· < 256) then some [256 * a + b, 256 * c + d] else none
  | _ => none

/-- One word of up to four hexadecimal digits. -/
def word? (cs : List Char) : Option Nat :=
  if cs = [] ∨ 4 < cs.length then none else ofRadix? 16 cs

/-- The words between colons; the last may be four octets. -/
def words? : List (List Char) → Option (List Nat)
  | [] => some []
  | [last] => (octetWords? last).or ((word? last).map fun w => [w])
  | part :: rest => do
    let w ← word? part
    let tail ← words? rest
    some (w :: tail)

/-- The words of a text between colons; of the empty text, none. -/
def group? (cs : List Char) : Option (List Nat) :=
  if cs = [] then some [] else words? (parts ':' cs)

/-- What stands before and after the first two colons in a row. -/
def splitAtGap : List Char → Option (List Char × List Char)
  | ':' :: ':' :: rest => some ([], rest)
  | c :: rest => (splitAtGap rest).map fun p => (c :: p.1, p.2)
  | [] => none

/-- The eight words of an address; two colons stand for as many zero words as are missing. -/
def address? (cs : List Char) : Option (List Nat) :=
  match splitAtGap cs with
  | none => do
    let all ← group? cs
    if all.length = 8 then some all else none
  | some (before, after) => do
    let front ← group? before
    let back ← group? after
    if before.contains '.' then none
    let present := front.length + back.length
    if present < 8 then some (front ++ List.replicate (8 - present) 0 ++ back) else none

/-- How many zeros a list starts with. -/
def zeroRun (ws : List Nat) : Nat :=
  (ws.takeWhile (· == 0)).length

/-- The longest run of zeros in a list. -/
def longestZeroRun : List Nat → Nat
  | [] => 0
  | w :: ws => max (zeroRun (w :: ws)) (longestZeroRun ws)

/-- What stands before the first run of `n` zeros, and what stands after it. -/
def splitAtZeros (n : Nat) : List Nat → List Nat × List Nat
  | [] => ([], [])
  | w :: ws =>
    if zeroRun (w :: ws) = n then ([], (w :: ws).drop n)
    else ((w :: (splitAtZeros n ws).1), (splitAtZeros n ws).2)

/-- Words between colons in lower-case hexadecimal. -/
def wordsText (ws : List Nat) : List Char :=
  [':'].intercalate (ws.map (Nat.toDigits 16))

/-- An address of eight words in brackets; of its runs of two zero words and more, the longest, and
of those the first, is left out. -/
def addressText (ws : List Nat) : List Char :=
  let run := longestZeroRun ws
  if run < 2 then '[' :: wordsText ws ++ [']']
  else
    let (front, back) := splitAtZeros run ws
    '[' :: wordsText front ++ [':', ':'] ++ wordsText back ++ [']']

/-! ## Names -/

/-- The characters that stand in no host. -/
def isForbidden (c : Char) : Bool :=
  c == '\x00' || c == '\t' || c == '\n' || c == '\r' || "#/:<>?@[\\]^| ".toList.contains c

/-- The characters that stand in no name. -/
def isForbiddenInName (c : Char) : Bool :=
  isForbidden c || c.toNat ≤ 0x1F || c == '%' || 0x7F ≤ c.toNat

/-- The usual spelling of a name or of an address of four octets. -/
def normalizeName? (cs : List Char) : Option (List Char) := do
  let name ← (ofOctets? (Percent.unescape cs)).map fun s => s.toList.map Char.toLower
  if name = [] ∨ name.any isForbiddenInName then none
  if endsInNumber name then (quad? name).map quadText else some name

/-- The usual spelling of a host. -/
def normalize? (cs : List Char) : Option (List Char) :=
  match cs with
  | '[' :: rest =>
    match rest.reverse with
    | ']' :: inner => (address? inner.reverse).map addressText
    | _ => none
  | cs => normalizeName? cs

/-- A host of a scheme that has no rules for hosts, which is left as it is but for its controls. -/
def verbatim? (cs : List Char) : Option (List Char) :=
  match cs with
  | '[' :: rest => normalize? ('[' :: rest)
  | cs =>
    if cs.any isForbidden then none
    else some (Percent.escapeWhere (fun c => c.toNat ≤ 0x1F || 0x7F ≤ c.toNat) cs)

end Courier.Http.Host
