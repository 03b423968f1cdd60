import Courier.Toml.Scalar
import Courier.Toml.Text

/-!
# TOML documents

A document is a list of statements, one to a line: headers, which name the table that the entries
after them belong to, and entries. `Document.parse?` reads the statements and puts the tables
together from them.

A table is made in one of three ways, and that decides what may be added to it: by a header of its
own, once; by the header of a table inside it; or by an entry with a dotted key. Tables and arrays
that are written as values are complete.
-/

namespace Courier.Toml

open Courier.Text

/-! ## Tables in the making -/

/-- How a table came about. -/
inductive Origin where
  /-- By the header of a table inside it. -/
  | implied
  /-- By a header of its own. -/
  | header
  /-- By an entry with a dotted key. -/
  | dotted
  deriving DecidableEq

/-- What stands under a name while tables are put together. -/
inductive Entry where
  /-- A complete value. -/
  | value (v : Value)
  /-- A table. -/
  | table (origin : Origin) (entries : List (String × Entry))
  /-- Tables in a row, the last one first, each made by a header. -/
  | tables (rows : List (List (String × Entry)))

/-- The entries of a table in the making. -/
abbrev Entries := List (String × Entry)

/-- Puts an entry under a name, in place of one that is there. -/
def putEntry (name : String) (e : Entry) : Entries → Entries
  | [] => [(name, e)]
  | (other, old) :: rest =>
    if name = other then (name, e) :: rest else (other, old) :: putEntry name e rest

/-- Changes the table that a header's keys lead to. The last of tables in a row is meant where they
pass one; tables on the way are made. -/
def within (f : Entries → Option Entries) : List String → Entries → Option Entries
  | [], es => f es
  | key :: path, es =>
    match es.lookup key with
    | none => (within f path []).map fun inner => putEntry key (.table .implied inner) es
    | some (.table origin inner) =>
      (within f path inner).map fun inner => putEntry key (.table origin inner) es
    | some (.tables (last :: others)) =>
      (within f path last).map fun last => putEntry key (.tables (last :: others)) es
    | some (.tables []) => none
    | some (.value _) => none

/-- Opens the table of a header. It is new, or was implied before. -/
def openTable (key : String) (es : Entries) : Option Entries :=
  match es.lookup key with
  | none => some (putEntry key (.table .header []) es)
  | some (.table .implied inner) => some (putEntry key (.table .header inner) es)
  | some _ => none

/-- Opens one more table of those in a row. -/
def openRow (key : String) (es : Entries) : Option Entries :=
  match es.lookup key with
  | none => some (putEntry key (.tables [[]]) es)
  | some (.tables rows) => some (putEntry key (.tables ([] :: rows)) es)
  | some _ => none

/-- Adds an entry under a dotted key. Only tables without a header of their own can be added to in
this way, and the innermost one has to be `own`: the table that the entry stands in, or one made by
dotted keys. -/
def addEntry (v : Value) : Bool → List String → Entries → Option Entries
  | _, [], _ => none
  | own, [key], es =>
    if own ∧ (es.lookup key).isNone then some (putEntry key (.value v) es) else none
  | _, key :: path, es =>
    match es.lookup key with
    | none => (addEntry v true path []).map fun inner => putEntry key (.table .dotted inner) es
    | some (.table origin inner) =>
      if origin = .header then none
      else
        (addEntry v (origin = .dotted) path inner).map fun inner =>
          putEntry key (.table origin inner) es
    | some (.tables (last :: others)) =>
      (addEntry v false path last).map fun last => putEntry key (.tables (last :: others)) es
    | some (.tables []) => none
    | some (.value _) => none

mutual

/-- The value of an entry. -/
def Entry.value? : Entry → Value
  | .value v => v
  | .table _ entries => .table (entryValues entries)
  | .tables rows => .array (rowValues rows).reverse

/-- The values of some entries. -/
def entryValues : List (String × Entry) → List (String × Value)
  | [] => []
  | (name, e) :: es => (name, Entry.value? e) :: entryValues es

/-- The values of tables in a row. -/
def rowValues : List (List (String × Entry)) → List Value
  | [] => []
  | row :: rows => .table (entryValues row) :: rowValues rows

end

/-! ## Values -/

/-- What follows a comment, if one stands in front; none if the comment holds a control
character. -/
def skipComment? : List Char → Option (List Char)
  | '#' :: rest =>
    let after := rest.dropWhile isPlain
    if after.isEmpty ∨ (afterNewline? after).isSome then some after else none
  | cs => some cs

/-- What follows blanks, line ends and comments. -/
def skipTrivia : Nat → List Char → Option (List Char)
  | 0, _ => none
  | fuel + 1, cs =>
    match skipSpaces cs with
    | '#' :: rest => skipComment? ('#' :: rest) >>= skipTrivia fuel
    | rest =>
      match afterNewline? rest with
      | some after => skipTrivia fuel after
      | none => some rest

/-- How deep arrays and tables may stand in one another. -/
def nestingLimit : Nat := 80

mutual

/-- A value. `depth` is how many arrays and tables may still open; each step takes a character at
least, so that the length of the text is enough `fuel`. -/
def readValue : Nat → Nat → Reader Value
  | 0, _, _ => none
  | fuel + 1, depth, cs =>
    match cs with
    | '[' :: rest => do
      if depth = 0 then none
      let rest ← skipTrivia (rest.length + 1) rest
      let (items, rest) ← readItems fuel (depth - 1) rest
      some (.array items, rest)
    | '\x7b' :: rest => do
      if depth = 0 then none
      match skipSpaces rest with
      | '\x7d' :: rest => some (.table [], rest)
      | rest =>
        let (entries, rest) ← readEntries fuel (depth - 1) [] rest
        some (.table (entryValues entries), rest)
    | '"' :: _ => (readString cs).map fun (s, rest) => (.string s, rest)
    | '\'' :: _ => (readString cs).map fun (s, rest) => (.string s, rest)
    | cs => readScalar cs

/-- The items of an array up to its bracket. -/
def readItems : Nat → Nat → Reader (List Value)
  | 0, _, _ => none
  | fuel + 1, depth, cs =>
    match cs with
    | ']' :: rest => some ([], rest)
    | cs => do
      let (v, rest) ← readValue fuel depth cs
      match ← skipTrivia (rest.length + 1) rest with
      | ']' :: rest => some ([v], rest)
      | ',' :: rest =>
        let rest ← skipTrivia (rest.length + 1) rest
        let (vs, rest) ← readItems fuel depth rest
        some (v :: vs, rest)
      | _ => none

/-- The entries of a table written as a value, up to its brace. -/
def readEntries : Nat → Nat → Entries → Reader Entries
  | 0, _, _, _ => none
  | fuel + 1, depth, es, cs => do
    let (path, rest) ← readPath (cs.length + 1) cs
    let ((), rest) ← Reader.char '=' rest
    let (v, rest) ← readValue fuel depth (skipSpaces rest)
    let es ← addEntry v true path es
    match skipSpaces rest with
    | '\x7d' :: rest => some (es, rest)
    | ',' :: rest => readEntries fuel depth es rest
    | _ => none

end

/-! ## Statements -/

/-- A line of a document. -/
inductive Statement where
  /-- A header of a table. -/
  | table (path : List String)
  /-- A header of one more table in a row. -/
  | row (path : List String)
  /-- An entry of the table named last. -/
  | entry (path : List String) (v : Value)

/-- The statement in front. -/
def readStatement : Reader Statement := fun cs =>
  match cs with
  | '[' :: '[' :: rest => do
    let (path, rest) ← readPath (rest.length + 1) rest
    let ((), rest) ← Reader.char ']' rest
    let ((), rest) ← Reader.char ']' rest
    some (.row path, rest)
  | '[' :: rest => do
    let (path, rest) ← readPath (rest.length + 1) rest
    let ((), rest) ← Reader.char ']' rest
    some (.table path, rest)
  | cs => do
    let (path, rest) ← readPath (cs.length + 1) cs
    let ((), rest) ← Reader.char '=' rest
    let (v, rest) ← readValue (2 * rest.length + 2) nestingLimit (skipSpaces rest)
    some (.entry path v, rest)

/-- What follows the end of a line, after blanks and a comment. -/
def lineEnd? (cs : List Char) : Option (List Char) := do
  let rest ← skipComment? (skipSpaces cs)
  if rest.isEmpty then some [] else afterNewline? rest

/-- The statements of a document. Each takes a character at least, so that the length of the text
is enough `fuel`. -/
def statements? : Nat → List Char → Option (List Statement)
  | 0, _ => none
  | fuel + 1, cs => do
    let cs ← skipTrivia (cs.length + 1) cs
    if cs.isEmpty then some []
    else
      let (s, rest) ← readStatement cs
      let rest ← lineEnd? rest
      (statements? fuel rest).map (s :: ·)

/-! ## Documents -/

/-- A document so far: the table that entries belong to, and all entries. -/
structure Progress where
  /-- The keys of the last header. -/
  path : List String
  /-- The entries of the whole document. -/
  entries : Entries

/-- Takes one more statement in. -/
def Progress.add (p : Progress) : Statement → Option Progress
  | .table path => do
    let key ← path.getLast?
    let entries ← within (openTable key) path.dropLast p.entries
    some ⟨path, entries⟩
  | .row path => do
    let key ← path.getLast?
    let entries ← within (openRow key) path.dropLast p.entries
    some ⟨path, entries⟩
  | .entry path v => do
    let entries ← within (addEntry v true path) p.path p.entries
    some { p with entries }

/-- A text without the byte order mark in front. -/
def skipMark : List Char → List Char
  | '\ufeff' :: rest => rest
  | cs => cs

/-- The table that a document holds. -/
def parse? (s : String) : Option (List (String × Value)) := do
  let cs := skipMark s.toList
  let statements ← statements? (cs.length + 1) cs
  let p ← statements.foldlM Progress.add ⟨[], []⟩
  some (entryValues p.entries)

end Courier.Toml
