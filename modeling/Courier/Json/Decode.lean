import Courier.Dict
import Courier.Json.Parser

/-!
# Reading a shape off a JSON text

A `Decoder` reads a value of some type off a text laid out, or gives the first fault that it meets
on its way. Records are read from an object or, field by field, from an array.

* In an object the members are met in the order of the text. A name that is no field is skipped; a
  field that comes twice is unsuitable as soon as its second name is read; a missing field is
  noticed after the closing brace.
* In an array the fields have their places, and items beyond the last field are a fault.

Configuration files are read with the same decoders, and `Dialect` holds what differs there.
-/

namespace Courier.Json

open Courier.Numeric

/-- Reads a value off a text laid out. -/
abbrev Decoder (α : Type) := Reading → Except Fault α

namespace Decoder

/-! ## Scalars -/

/-- A text. -/
def string : Decoder String
  | .string s => s
  | r => .error r.mismatch

/-- A truth value. -/
def bool : Decoder Bool
  | .bool b => .ok b
  | r => .error r.mismatch

/-- A whole number in a range. -/
def int (low high : Int) : Decoder Int
  | .number (.ok (.int n)) => if low ≤ n ∧ n ≤ high then .ok n else .error .unsuitable
  | r => .error r.mismatch

/-- A signed number of 64 bits. -/
def int64 : Decoder Int :=
  int Int64.minValue.toInt Int64.maxValue.toInt

/-- An unsigned number of 32 bits. -/
def nat32 : Decoder Nat := fun r =>
  (int 0 ((UInt32.size - 1 : Nat) : Int) r).map Int.toNat

/-- A binary64 number; an integer of 64 bits is taken for the number nearest to it. -/
def float : Decoder Binary64
  | .number (.ok (.float x)) => .ok x
  | .number (.ok (.int n)) =>
    if Int64.minValue.toInt ≤ n ∧ n < (UInt64.size : Int) then .ok (Binary64.ofInt n) else .error .unsuitable
  | r => .error r.mismatch

/-! ## Containers -/

/-- Nothing for `null`, and otherwise a value. -/
def option (d : Decoder α) : Decoder (Option α)
  | .null => .ok none
  | r => (d r).map some

/-- A value, unless the container it is in does not end as it should. -/
def closing (close : Option Fault) (a : α) : Except Fault α :=
  match close with
  | some f => .error f
  | none => .ok a

/-- The items of an array. -/
def list (d : Decoder α) : Decoder (List α)
  | .array items close => items.mapM d >>= closing close
  | r => .error r.mismatch

/-- A member of an object. -/
def entry (d : Decoder α) : Except Fault String × Reading → Except Fault (String × α)
  | (.error f, _) => .error f
  | (.ok name, r) => (d r).map (name, ·)

/-- The members of an object by name; of two with one name the later counts. -/
def dict (d : Decoder α) : Decoder (Dict α)
  | .object members close => (members.mapM (entry d) >>= closing close).map Dict.ofList
  | r => .error r.mismatch

end Decoder

/-! ## Records -/

/-- What differs between the formats that records are read from. -/
structure Dialect where
  /-- The fault of items of an array beyond the last field, if they are one. -/
  surplus : Option Fault
  /-- What may stand beside the name of an alternative that holds nothing. -/
  isUnit : Reading → Bool

/-- JSON texts: surplus items are malformed, and `null` may stand beside an alternative. -/
def Dialect.json : Dialect where
  surplus := some .malformed
  isUnit
    | .null => true
    | _ => false

/-- A field of a record. -/
structure RecordField (α : Type) where
  /-- Its name in an object. -/
  name : String
  /-- How its value is read. -/
  read : Decoder α
  /-- What an object without it means. -/
  absent : Except Fault α
  /-- What an array that ends before it means. -/
  beyond : Except Fault α

namespace RecordField

/-- A field that has to be there. -/
def required (name : String) (d : Decoder α) : RecordField α :=
  ⟨name, d, .error .unsuitable, .error .unsuitable⟩

/-- A field with a value for when it is not there. -/
def defaulted (name : String) (d : Decoder α) (a : α) : RecordField α :=
  ⟨name, d, .ok a, .ok a⟩

/-- A field that an object may lack, but an array may not. -/
def optional (name : String) (d : Decoder α) : RecordField (Option α) :=
  ⟨name, .option d, .ok none, .error .unsuitable⟩

/-- A field that may be lacking. -/
def omittable (name : String) (d : Decoder α) : RecordField (Option α) :=
  defaulted name (.option d) none

/-- The fault met when the field is read, if there is one. -/
def fault (f : RecordField α) (r : Reading) : Option Fault :=
  match f.read r with
  | .ok _ => none
  | .error e => some e

/-- A field by its name and its fault. -/
def probe (f : RecordField α) : String × (Reading → Option Fault) :=
  (f.name, f.fault)

end RecordField

/-- The fields that a record was given, once it is known that each can be read. -/
structure Cells where
  /-- The fields by name. -/
  cells : List (String × Reading)
  /-- They come from an array. -/
  positional : Bool

/-- The value of a field. -/
def Cells.get (c : Cells) (f : RecordField α) : Except Fault α :=
  match c.cells.lookup f.name with
  | some r => f.read r
  | none => if c.positional then f.beyond else f.absent

/-- The fields among the members of an object, in the order of the text. -/
def pickMembers (known : List (String × (Reading → Option Fault))) (seen : List String) :
    List (Except Fault String × Reading) → Except Fault (List (String × Reading))
  | [] => .ok []
  | (.error f, _) :: _ => .error f
  | (.ok name, r) :: ms =>
    match known.lookup name with
    | none =>
      match r.skip with
      | some f => .error f
      | none => pickMembers known seen ms
    | some fault =>
      if seen.contains name then .error .unsuitable
      else
        match fault r with
        | some f => .error f
        | none => (pickMembers known (name :: seen) ms).map ((name, r) :: ·)

/-- The fields at their places in an array. -/
def pickItems (surplus : Option Fault) :
    List (String × (Reading → Option Fault)) → List Reading →
      Except Fault (List (String × Reading))
  | _, [] => .ok []
  | [], _ :: _ => Decoder.closing surplus []
  | (name, fault) :: known, r :: rs =>
    match fault r with
    | some f => .error f
    | none => (pickItems surplus known rs).map ((name, r) :: ·)

/-- The fields of a record with the given fields. -/
def cells (dialect : Dialect) (known : List (String × (Reading → Option Fault))) : Decoder Cells
  | .object members close =>
    (pickMembers known [] members >>= Decoder.closing close).map (Cells.mk · false)
  | .array items close =>
    (pickItems dialect.surplus known items >>= Decoder.closing close).map (Cells.mk · true)
  | r => .error r.mismatch

/-- One of several named alternatives: its name alone, or an object with its name as the only
member. -/
def alternative (dialect : Dialect) (named : String → Option α) : Decoder α
  | .string (.ok s) => (named s).elim (.error .unsuitable) .ok
  | .object [(.ok s, r)] none =>
    if dialect.isUnit r then (named s).elim (.error .unsuitable) .ok else .error .unsuitable
  | r => .error r.mismatch

/-! ## Any value -/

/-- How many levels of nesting are one too many. -/
def nestingLimit : Nat := 128

mutual

/-- Any value, with fewer than `limit` levels of nesting. -/
def anyValue (limit : Nat) : Decoder Value
  | .null => .ok .null
  | .bool b => .ok (.bool b)
  | .number n => n.map .number
  | .string s => s.map .string
  | .array items close =>
    if limit ≤ 1 then .error .malformed
    else (anyItems (limit - 1) items >>= Decoder.closing close).map .array
  | .object members close =>
    if limit ≤ 1 then .error .malformed
    else
      (anyMembers (limit - 1) members >>= Decoder.closing close).map fun ms =>
        .object (Dict.ofList ms).entries
  | .broken strict _ => .error strict

/-- Any items. -/
def anyItems (limit : Nat) : List Reading → Except Fault (List Value)
  | [] => .ok []
  | r :: rs => do
    let v ← anyValue limit r
    let vs ← anyItems limit rs
    return v :: vs

/-- Any members. -/
def anyMembers (limit : Nat) :
    List (Except Fault String × Reading) → Except Fault (List (String × Value))
  | [] => .ok []
  | (name, r) :: ms => do
    let name ← name
    let v ← anyValue limit r
    let rest ← anyMembers limit ms
    return (name, v) :: rest

end

/-! ## Whole texts and values -/

/-- Reads a JSON text, with nothing but white space after the value. -/
def decodeOctets (d : Decoder α) (bytes : List UInt8) : Except Fault α :=
  let (r, trailing) := layOut bytes
  d r >>= Decoder.closing trailing

/-- Reads a JSON text. -/
def decodeText (d : Decoder α) (s : String) : Except Fault α :=
  decodeOctets d (Text.octets s)

/-- Reads a value that is at hand; whatever is wrong with it, it is unsuitable. -/
def decodeValue (d : Decoder α) (v : Value) : Except Fault α :=
  (d v.reading).mapError fun _ => .unsuitable

/-- The value that a JSON text holds. -/
def parse (s : String) : Except Fault Value :=
  decodeText (anyValue nestingLimit) s

end Courier.Json
