import Courier.Http.Host
import Courier.Text.Blank

/-!
# URLs

`Url.ofText?` reads an absolute URL and gives it its usual spelling: scheme and host in lower case,
without the number that the scheme implies, dot segments resolved, and with escapes in place of the
characters that do not stand in a URL. A URL for the web (`http`, `https` and a few more) has to
have a host and has a path, which begins with a slash. A user named before the host is left out.
-/

namespace Courier.Http

open Courier.Numeric Courier.Text

/-- An absolute URL in its usual spelling. -/
structure Url where
  /-- The scheme, in lower case. -/
  scheme : List Char
  /-- The host; URLs of some schemes have none. -/
  host : Option (List Char)
  /-- The number after the host, unless the scheme implies it. -/
  number : Option Nat
  /-- The path. -/
  path : List Char
  /-- What stands after the question mark. -/
  query : Option (List Char)
  /-- What stands after the number sign. -/
  fragment : Option (List Char)
  deriving DecidableEq, Inhabited

namespace Url

/-! ## Writing -/

/-- An optional part of a URL behind its mark. -/
def marked (mark : Char) : Option (List Char) → List Char
  | some part => mark :: part
  | none => []

/-- What stands between the scheme and the path. A path that begins with two slashes is kept apart
from a host that is not there. -/
def authorityText (u : Url) : List Char :=
  match u.host with
  | some host => ['/', '/'] ++ host ++ marked ':' (u.number.map digits)
  | none =>
    match u.path with
    | '/' :: '/' :: _ => ['/', '.']
    | _ => []

/-- The text of a URL. -/
def text (u : Url) : String :=
  String.ofList
    (u.scheme ++ ':' :: u.authorityText ++ u.path ++ marked '?' u.query ++ marked '#' u.fragment)

/-- Requests can be sent to URLs of this scheme. -/
def isWeb (u : Url) : Bool :=
  u.scheme == "http".toList || u.scheme == "https".toList

/-! ## What has to be escaped -/

/-- Controls and what is not ASCII. -/
def isControl (c : Char) : Bool :=
  c.toNat ≤ 0x1F || 0x7F ≤ c.toNat

/-- What does not stand in a fragment. -/
def escapedInFragment (c : Char) : Bool :=
  isControl c || " \"<>`".toList.contains c

/-- What does not stand in a path. -/
def escapedInPath (c : Char) : Bool :=
  escapedInFragment c || "#?\x7b\x7d".toList.contains c

/-- What does not stand in a query. -/
def escapedInQuery (special : Bool) (c : Char) : Bool :=
  isControl c || " \"#<>".toList.contains c || (special && c == '\'')

/-! ## Schemes -/

/-- The schemes whose URLs have a host, with the numbers that they imply. -/
def impliedNumbers : List (String × Nat) :=
  [("http", 80), ("https", 443), ("ws", 80), ("wss", 443), ("ftp", 21)]

/-- The number that a scheme implies; none for a scheme without rules for hosts. -/
def impliedNumber? (scheme : List Char) : Option Nat :=
  impliedNumbers.lookup (String.ofList scheme)

/-- A character of a scheme after the first. -/
def isSchemeChar (c : Char) : Bool :=
  c.isAlphanum || c == '+' || c == '-' || c == '.'

/-- The scheme in front of a text, in lower case, with what follows the colon after it. -/
def splitScheme? (cs : List Char) : Option (List Char × List Char) :=
  match cs.takeWhile isSchemeChar, cs.dropWhile isSchemeChar with
  | c :: name, ':' :: rest =>
    if c.isAlpha then some ((c :: name).map Char.toLower, rest) else none
  | _, _ => none

/-! ## Hosts and the numbers after them -/

/-- What stands after the last `@`, if there is one. -/
def afterUser (cs : List Char) : List Char :=
  (cs.reverse.takeWhile (· != '@')).reverse

/-- Where a host ends and its number begins: at the first colon outside of brackets. -/
def splitNumber : Bool → List Char → List Char × Option (List Char)
  | _, [] => ([], none)
  | inside, c :: cs =>
    if c = ':' ∧ !inside then ([], some cs)
    else
      let rest := splitNumber (if c = '[' then true else if c = ']' then false else inside) cs
      (c :: rest.1, rest.2)

/-- The number after a host, unless there is none or the scheme implies it. -/
def number? (implied : Option Nat) : Option (List Char) → Option (Option Nat)
  | none => some none
  | some [] => some none
  | some cs =>
    if cs.all Char.isDigit ∧ ofDigits cs < UInt16.size then
      some (if implied = some (ofDigits cs) then none else some (ofDigits cs))
    else none

/-- The host and the number of an authority. -/
def authority? (implied : Option Nat) (cs : List Char) :
    Option (List Char × Option Nat) := do
  let (hostText, numberText) := splitNumber false (afterUser cs)
  let host ← if implied.isSome then Host.normalize? hostText else Host.verbatim? hostText
  if host = [] ∧ (numberText.isSome ∨ cs.contains '@') then none
  some (host, ← number? implied numberText)

/-! ## Paths -/

/-- A segment that stays where it is. -/
def isSingleDot (segment : List Char) : Bool :=
  segment.map Char.toLower ∈ [".", "%2e"].map String.toList

/-- A segment that leads back over the one before it. -/
def isDoubleDot (segment : List Char) : Bool :=
  segment.map Char.toLower ∈ ["..", ".%2e", "%2e.", "%2e%2e"].map String.toList

/-- The segments of a path without the dots; `before` are those that have been passed, the last one
first. Dots at the end leave an empty segment there. -/
def resolve (before : List (List Char)) : List (List Char) → List (List Char)
  | [] => before.reverse
  | segment :: rest =>
    if isDoubleDot segment then
      if rest = [] then (before.tail.reverse ++ [[]]) else resolve before.tail rest
    else if isSingleDot segment then
      if rest = [] then (before.reverse ++ [[]]) else resolve before rest
    else resolve (Percent.escapeWhere escapedInPath segment :: before) rest

/-- A path in its usual spelling. The mark before the first segment is not part of `cs`. -/
def pathText (isMark : Char → Bool) (cs : List Char) : List Char :=
  (resolve [] (partsWhere isMark cs)).flatMap ('/' :: ·)

/-! ## Reading -/

/-- A text up to the first character that satisfies `p`, and what follows that character. -/
def cutAt (p : Char → Bool) (cs : List Char) : List Char × Option (List Char) :=
  match cs.dropWhile (!p ·) with
  | [] => (cs, none)
  | _ :: rest => (cs.takeWhile (!p ·), some rest)

/-- Reads what follows the scheme of a URL with a host. -/
def special? (implied : Nat) (body : List Char) :
    Option (Option (List Char) × Option Nat × List Char) := do
  let isMark : Char → Bool := fun c => c == '/' || c == '\\'
  let start := body.dropWhile isMark
  let (host, number) ← authority? (some implied) (start.takeWhile (!isMark ·))
  let path := start.dropWhile (!isMark ·)
  some (some host, number, pathText isMark (path.drop 1))

/-- Reads what follows the scheme of any other URL. -/
def plain? (body : List Char) : Option (Option (List Char) × Option Nat × List Char) :=
  let isMark : Char → Bool := (· == '/')
  match body with
  | '/' :: '/' :: rest => do
    let (host, number) ← authority? none (rest.takeWhile (!isMark ·))
    let path := rest.dropWhile (!isMark ·)
    some (some host, number, if path = [] then [] else pathText isMark (path.drop 1))
  | '/' :: rest => some (none, none, pathText isMark rest)
  | rest => some (none, none, Percent.escapeWhere isControl rest)

/-- The URL that a text spells. Controls and spaces at its ends do not count, nor do tabs and line
ends anywhere. -/
def ofText? (s : String) : Option Url := do
  let cs := (stripWhile (fun c => c.toNat ≤ 0x20) s.toList).filter
    fun c => c != '\t' && c != '\n' && c != '\r'
  let (scheme, rest) ← splitScheme? cs
  let (rest, fragment) := cutAt (· == '#') rest
  let (body, query) := cutAt (· == '?') rest
  let implied := impliedNumber? scheme
  let (host, number, path) ←
    match implied with
    | some implied => special? implied body
    | none => plain? body
  some {
    scheme, host, number, path
    query := query.map (Percent.escapeWhere (escapedInQuery implied.isSome))
    fragment := fragment.map (Percent.escapeWhere escapedInFragment) }

end Url

end Courier.Http
