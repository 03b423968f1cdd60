import Courier.Json.Basic

/-!
# What a JSON text shows

A reader that knows which shape it wants meets the faults of a text in the order of the text: a
member of the wrong kind stops it before a missing bracket further on does, and a member it has no
use for is only skipped. So a text is first laid out as a `Reading`, a tree in which each fault
stands where it is met, and the shape is then read off the tree (`Courier.Json.Decode`).

Skipping is more lenient than reading: a skipped text may hold half of a surrogate pair or octets
that are not UTF-8, and a skipped number may be too large. Such a fault stands in the leaf it
belongs to. A place from which nothing more can be laid out is `broken`, with the fault a reader and
a skipper meet there.

* `Reading.skip` is the fault met when a value is skipped.
* `Value.reading` is the tree of a value that is at hand.
-/

namespace Courier.Json

/-- Why a JSON text is refused. -/
inductive Fault where
  /-- The text is not JSON. -/
  | malformed
  /-- The text is JSON of another shape than the one wanted. -/
  | unsuitable
  /-- The text ends too early. -/
  | truncated
  deriving DecidableEq, Repr, Inhabited

/-- A JSON text laid out, with each fault where it is met. -/
inductive Reading where
  /-- The value `null`. -/
  | null
  /-- A truth value. -/
  | bool (b : Bool)
  /-- A number, or why it cannot be read. -/
  | number (n : Except Fault Number)
  /-- A text, or why it cannot be read. -/
  | string (s : Except Fault String)
  /-- The items of an array, and the fault met in place of the comma or bracket after the last. -/
  | array (items : List Reading) (close : Option Fault)
  /-- The members of an object, and the fault met in place of the comma or brace after the last. -/
  | object (members : List (Except Fault String × Reading)) (close : Option Fault)
  /-- Nothing can be laid out from here on: the fault of a reader and that of a skipper. -/
  | broken (strict lenient : Fault)
  deriving Inhabited

mutual

/-- The fault met when a value is skipped. -/
def Reading.skip : Reading → Option Fault
  | .null => none
  | .bool _ => none
  | .number _ => none
  | .string _ => none
  | .array items close => (skipItems items).or close
  | .object members close => (skipMembers members).or close
  | .broken _ lenient => some lenient

/-- The first fault met when items are skipped. -/
def skipItems : List Reading → Option Fault
  | [] => none
  | r :: rs => (Reading.skip r).or (skipItems rs)

/-- The first fault met when members are skipped. -/
def skipMembers : List (Except Fault String × Reading) → Option Fault
  | [] => none
  | (_, r) :: ms => (Reading.skip r).or (skipMembers ms)

end

mutual

/-- A value as it is laid out when its text is read. -/
def Value.reading : Value → Reading
  | .null => .null
  | .bool b => .bool b
  | .number n => .number (.ok n)
  | .string s => .string (.ok s)
  | .array items => .array (itemReadings items) none
  | .object members => .object (memberReadings members) none

/-- The items of an array, laid out. -/
def itemReadings : List Value → List Reading
  | [] => []
  | v :: vs => Value.reading v :: itemReadings vs

/-- The members of an object, laid out. -/
def memberReadings : List (String × Value) → List (Except Fault String × Reading)
  | [] => []
  | (name, v) :: ms => (.ok name, Value.reading v) :: memberReadings ms

end

/-- The fault of a value of another kind than the one wanted. A scalar is read to its end first,
so that a fault inside it comes first. -/
def Reading.mismatch : Reading → Fault
  | .number (.error f) => f
  | .string (.error f) => f
  | .broken strict _ => strict
  | _ => .unsuitable

end Courier.Json
