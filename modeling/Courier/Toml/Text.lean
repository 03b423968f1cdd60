import Courier.Text.Reader

/-!
# Texts and keys in TOML

A text stands between quotes or between apostrophes, one or three of them. Between quotes a
backslash starts an escape, between apostrophes it is a character like others; three quotes or
apostrophes let the text run over several lines.

Of the control characters only the tab may stand in a text, and line feeds, alone or after a
carriage return, where lines are allowed.
-/

namespace Courier.Toml

open Courier.Text

/-! ## Characters -/

/-- A space or a tab. -/
def isSpace (c : Char) : Bool :=
  c == ' ' || c == '\t'

/-- A character that may stand in a comment, and in a text on one line. -/
def isPlain (c : Char) : Bool :=
  c == '\t' || (0x20 ≤ c.toNat && c.toNat != 0x7F)

/-- A text without the spaces and tabs in front. -/
def skipSpaces (cs : List Char) : List Char :=
  cs.dropWhile isSpace

/-- What follows a line end, if one stands in front. -/
def afterNewline? : List Char → Option (List Char)
  | '\n' :: rest => some rest
  | '\r' :: '\n' :: rest => some rest
  | _ => none

/-- What follows the line ends, spaces and tabs in front. -/
def skipLines : List Char → List Char
  | '\r' :: '\n' :: rest => skipLines rest
  | c :: rest => if c = '\n' ∨ isSpace c then skipLines rest else c :: rest
  | [] => []

/-! ## Escapes -/

/-- The value of some hexadecimal digits. -/
def hexNumber? (ds : List Char) : Option Nat :=
  ds.foldlM (fun n c =>
    if '0' ≤ c ∧ c ≤ '9' then some (16 * n + (c.toNat - 0x30))
    else if 'a' ≤ c ∧ c ≤ 'f' then some (16 * n + (c.toNat - 0x61 + 10))
    else if 'A' ≤ c ∧ c ≤ 'F' then some (16 * n + (c.toNat - 0x41 + 10))
    else none) 0

/-- The character of a code point given by hexadecimal digits. -/
def codePoint? (ds : List Char) : Option Char := do
  let n ← hexNumber? ds
  if n < 0xD800 ∨ (0xDFFF < n ∧ n ≤ 0x10FFFF) then some (Char.ofNat n) else none

/-- The character of an escape after its backslash. -/
def readEscape : Reader Char
  | 'b' :: rest => some ('\x08', rest)
  | 't' :: rest => some ('\t', rest)
  | 'n' :: rest => some ('\n', rest)
  | 'f' :: rest => some ('\x0c', rest)
  | 'r' :: rest => some ('\r', rest)
  | '"' :: rest => some ('"', rest)
  | '\\' :: rest => some ('\\', rest)
  | 'u' :: a :: b :: c :: d :: rest => (codePoint? [a, b, c, d]).map (·, rest)
  | 'U' :: a :: b :: c :: d :: e :: f :: g :: h :: rest =>
    (codePoint? [a, b, c, d, e, f, g, h]).map (·, rest)
  | _ => none

/-! ## Texts -/

/-- The characters up to a quote. Each step takes one character at least, so that a text's length
is enough `fuel`; the same holds for the other readers of texts. -/
def readBasic : Nat → Reader (List Char)
  | 0, _ => none
  | fuel + 1, cs =>
    match cs with
    | [] => none
    | '"' :: rest => some ([], rest)
    | '\\' :: rest => do
      let (c, rest) ← readEscape rest
      let (more, rest) ← readBasic fuel rest
      some (c :: more, rest)
    | c :: rest => do
      if !isPlain c then none
      let (more, rest) ← readBasic fuel rest
      some (c :: more, rest)

/-- The characters up to an apostrophe. -/
def readLiteral : Reader (List Char)
  | [] => none
  | c :: rest =>
    if c = '\'' then some ([], rest)
    else if isPlain c then (readLiteral rest).map fun (more, rest) => (c :: more, rest)
    else none

/-- The end of a text over several lines: three marks, after at most two that belong to it. -/
def readEnd? (mark : Char) : Reader (List Char) := fun cs =>
  let marks := (cs.take 5).takeWhile (· == mark)
  if marks.length < 3 then none
  else some (List.replicate (marks.length - 3) mark, cs.drop marks.length)

/-- What follows the end of a line from which a text over several lines goes on without it: blanks
up to the line end, and all blanks and line ends after it. -/
def afterContinuation? (cs : List Char) : Option (List Char) :=
  (afterNewline? (skipSpaces cs)).map skipLines

/-- The characters of a text over several lines up to its three quotes. -/
def readBasicLines : Nat → Reader (List Char)
  | 0, _ => none
  | fuel + 1, cs =>
    match readEnd? '"' cs with
    | some ended => some ended
    | none =>
      match cs with
      | [] => none
      | '\\' :: rest =>
        match afterContinuation? rest with
        | some rest => readBasicLines fuel rest
        | none => do
          let (c, rest) ← readEscape rest
          let (more, rest) ← readBasicLines fuel rest
          some (c :: more, rest)
      | '\r' :: '\n' :: rest => do
        let (more, rest) ← readBasicLines fuel rest
        some ('\r' :: '\n' :: more, rest)
      | c :: rest => do
        if !isPlain c && c != '\n' then none
        let (more, rest) ← readBasicLines fuel rest
        some (c :: more, rest)

/-- The characters of a text over several lines up to its three apostrophes. -/
def readLiteralLines : Nat → Reader (List Char)
  | 0, _ => none
  | fuel + 1, cs =>
    match readEnd? '\'' cs with
    | some ended => some ended
    | none =>
      match cs with
      | [] => none
      | '\r' :: '\n' :: rest => do
        let (more, rest) ← readLiteralLines fuel rest
        some ('\r' :: '\n' :: more, rest)
      | c :: rest => do
        if !isPlain c && c != '\n' then none
        let (more, rest) ← readLiteralLines fuel rest
        some (c :: more, rest)

/-- A text without the line end right after its opening marks. -/
def skipFirstNewline (cs : List Char) : List Char :=
  (afterNewline? cs).getD cs

/-- A text. -/
def readString : Reader String := fun cs =>
  let chars : Option (List Char × List Char) :=
    match cs with
    | '"' :: '"' :: '"' :: rest => readBasicLines (rest.length + 1) (skipFirstNewline rest)
    | '\'' :: '\'' :: '\'' :: rest => readLiteralLines (rest.length + 1) (skipFirstNewline rest)
    | '"' :: rest => readBasic (rest.length + 1) rest
    | '\'' :: rest => readLiteral rest
    | _ => none
  chars.map fun (s, rest) => (String.ofList s, rest)

/-! ## Keys -/

/-- A character of a key without quotes. -/
def isBare (c : Char) : Bool :=
  ('a' ≤ c && c ≤ 'z') || ('A' ≤ c && c ≤ 'Z') || ('0' ≤ c && c ≤ '9') || c == '_' || c == '-'

/-- One key: bare characters, or a text on one line. -/
def readKey : Reader String := fun cs =>
  match cs with
  | '"' :: rest => (readBasic (rest.length + 1) rest).map fun (s, rest) => (String.ofList s, rest)
  | '\'' :: rest => (readLiteral rest).map fun (s, rest) => (String.ofList s, rest)
  | _ =>
    match Reader.run isBare cs with
    | ([], _) => none
    | (bare, rest) => some (String.ofList bare, rest)

/-- Keys with dots between them; spaces and tabs may stand around each. -/
def readPath : Nat → Reader (List String)
  | 0, _ => none
  | fuel + 1, cs => do
    let (key, rest) ← readKey (skipSpaces cs)
    match skipSpaces rest with
    | '.' :: rest =>
      let (more, rest) ← readPath fuel rest
      some (key :: more, rest)
    | rest => some ([key], rest)

end Courier.Toml
