import Courier.Json.Decode

/-!
# TOML values

What a configuration file holds. A date or a time is kept as its text. `Value.reading` lays a value
out in the same way as a JSON text, so that one set of decoders reads both; the dialect of
configuration files differs from that of JSON in two points, `Dialect.toml`.
-/

namespace Courier.Toml

open Courier.Json Courier.Numeric

/-- A TOML value. -/
inductive Value where
  /-- A text. -/
  | string (s : String)
  /-- A whole number. -/
  | int (n : Int)
  /-- A binary64 number. -/
  | float (x : Binary64)
  /-- A truth value. -/
  | bool (b : Bool)
  /-- A date, a time, or both, by its text. -/
  | dateTime (text : String)
  /-- Values in a row. -/
  | array (items : List Value)
  /-- Named values. -/
  | table (entries : List (String × Value))
  deriving Inhabited

/-- The name under which the text of a date or time stands where any value may stand. -/
def dateTimeName : String := "$__toml_private_datetime"

mutual

/-- A value laid out. -/
def Value.reading : Value → Reading
  | .string s => .string (.ok s)
  | .int n => .number (.ok (.int n))
  | .float x => .number (.ok (.float x))
  | .bool b => .bool b
  | .dateTime text => .object [(.ok dateTimeName, .string (.ok text))] none
  | .array items => .array (itemReadings items) none
  | .table entries => .object (entryReadings entries) none

/-- The items of an array, laid out. -/
def itemReadings : List Value → List Reading
  | [] => []
  | v :: vs => Value.reading v :: itemReadings vs

/-- The entries of a table, laid out. -/
def entryReadings : List (String × Value) → List (Except Fault String × Reading)
  | [] => []
  | (name, v) :: es => (.ok name, Value.reading v) :: entryReadings es

end

mutual

/-- Every whole number in a value fits 64 bits, with or without sign. -/
def Value.fitsWords : Value → Bool
  | .int n => Int64.minValue.toInt ≤ n && n < (UInt64.size : Int)
  | .array items => itemsFitWords items
  | .table entries => entriesFitWords entries
  | _ => true

/-- Every whole number in some values fits 64 bits. -/
def itemsFitWords : List Value → Bool
  | [] => true
  | v :: vs => Value.fitsWords v && itemsFitWords vs

/-- Every whole number in some entries fits 64 bits. -/
def entriesFitWords : List (String × Value) → Bool
  | [] => true
  | (_, v) :: es => Value.fitsWords v && entriesFitWords es

end

/-- Configuration files: an array may go on beyond the last field of a record, and an empty array or
table may stand beside an alternative. -/
def dialect : Dialect where
  surplus := none
  isUnit
    | .array [] none => true
    | .object [] none => true
    | _ => false

end Courier.Toml
