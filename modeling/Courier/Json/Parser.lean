import Courier.Json.Literal

/-!
# Laying out a JSON text

`layOut` turns octets into a `Reading` and the fault, if any, of what follows the value. It is total
by fuel: each level of nesting and each item takes one unit, and a text has fewer of them than twice
its octets, so `layOut` brings enough for every text.
-/

namespace Courier.Json

/-- The white space between tokens. -/
def isGap (b : UInt8) : Bool :=
  isChar ' ' b || isChar '\n' b || isChar '\t' b || isChar '\r' b

/-- A text without the white space in front. -/
def skipGap (bytes : List UInt8) : List UInt8 :=
  bytes.dropWhile isGap

/-- What follows a word that has to stand here. -/
def expect : List Char → List UInt8 → Except Fault (List UInt8)
  | [], rest => .ok rest
  | _ :: _, [] => .error .truncated
  | c :: cs, b :: rest => if isChar c b then expect cs rest else .error .malformed

/-- A value laid out, and what follows it unless the text broke off. -/
abbrev Laid := Reading × Option (List UInt8)

/-- A place from which nothing more can be laid out. -/
def Break.laid (b : Break) : Laid :=
  (.broken b.strict b.lenient, none)

/-- A value that is a single word, of which the first letter has been seen. -/
def layWord (r : Reading) (letters : List Char) (bytes : List UInt8) : Laid :=
  match expect letters bytes with
  | .ok rest => (r, some rest)
  | .error f => (Break.both f).laid

/-- A number. -/
def layNumber (bytes : List UInt8) : Laid :=
  match Numeral.scan bytes with
  | .ok (n, rest) => (.number n.number, some rest)
  | .error b => b.laid

/-- A text after its opening quote. -/
def layText (bytes : List UInt8) : Laid :=
  match scanText bytes with
  | .ok (s, rest) => (.string s, some rest)
  | .error b => b.laid

/-- The items of a container laid out so far, the fault in place of its closing bracket, and what
follows that bracket. -/
abbrev Row (α : Type) := List α × Option Fault × Option (List UInt8)

/-- A container that ends here. -/
def Row.closed (rest : List UInt8) : Row α :=
  ([], none, some rest)

/-- A container that meets a fault here. -/
def Row.stopped (f : Fault) : Row α :=
  ([], some f, none)

/-- A container with one more item in front. -/
def Row.onto (a : α) (row : Row α) : Row α :=
  (a :: row.1, row.2)

mutual

/-- The value at the front of a text. -/
def layValue : Nat → List UInt8 → Laid
  | 0, _ => (Break.both .malformed).laid
  | fuel + 1, bytes =>
    match skipGap bytes with
    | [] => (Break.both .truncated).laid
    | b :: rest =>
      if isChar '"' b then layText rest
      else if isChar '[' b then
        let row := match skipGap rest with
          | [] => Row.stopped .truncated
          | c :: after => if isChar ']' c then Row.closed after else layItems fuel rest
        (.array row.1 row.2.1, row.2.2)
      else if isChar '\x7b' b then
        let row := match skipGap rest with
          | [] => Row.stopped .truncated
          | c :: after => if isChar '\x7d' c then Row.closed after else layMembers fuel rest
        (.object row.1 row.2.1, row.2.2)
      else if isChar 't' b then layWord (.bool true) ['r', 'u', 'e'] rest
      else if isChar 'f' b then layWord (.bool false) ['a', 'l', 's', 'e'] rest
      else if isChar 'n' b then layWord .null ['u', 'l', 'l'] rest
      else if isChar '-' b || isDigit b then layNumber (b :: rest)
      else (Break.both .malformed).laid

/-- One item of an array and those after it. -/
def layItems : Nat → List UInt8 → Row Reading
  | 0, _ => Row.stopped .malformed
  | fuel + 1, bytes =>
    match layValue fuel bytes with
    | (r, none) => ([r], none, none)
    | (r, some rest) =>
      Row.onto r <|
        match skipGap rest with
        | [] => Row.stopped .truncated
        | c :: after =>
          if isChar ',' c then layItems fuel after
          else if isChar ']' c then Row.closed after
          else Row.stopped .malformed

/-- One member of an object and those after it. -/
def layMembers : Nat → List UInt8 → Row (Except Fault String × Reading)
  | 0, _ => Row.stopped .malformed
  | fuel + 1, bytes =>
    match skipGap bytes with
    | [] => Row.stopped .truncated
    | q :: rest =>
      if isChar '"' q then
        match scanText rest with
        | .error b => ([(.error b.strict, .broken b.strict b.lenient)], none, none)
        | .ok (name, rest) =>
          let value := match skipGap rest with
            | [] => (Break.both .truncated).laid
            | c :: after =>
              if isChar ':' c then layValue fuel after else (Break.both .malformed).laid
          match value with
          | (r, none) => ([(name, r)], none, none)
          | (r, some rest) =>
            Row.onto (name, r) <|
              match skipGap rest with
              | [] => Row.stopped .truncated
              | c :: after =>
                if isChar ',' c then layMembers fuel after
                else if isChar '\x7d' c then Row.closed after
                else Row.stopped .malformed
      else Row.stopped .malformed

end

/-- A text laid out as one value, and the fault of what follows the value. -/
def layOut (bytes : List UInt8) : Reading × Option Fault :=
  match layValue (2 * bytes.length + 2) bytes with
  | (r, none) => (r, none)
  | (r, some rest) => (r, if (skipGap rest).isEmpty then none else some .malformed)

end Courier.Json
